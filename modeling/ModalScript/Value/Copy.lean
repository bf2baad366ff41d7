/-
Copies of values.

A shallow copy of a container is a new container with the same elements; a deep copy
shares no container with the value it was made from.  `Allocating` is the type of
computations that may create containers and may fail.
-/
import ModalScript.Value.Display

namespace ModalScript

/-- A computation that may create containers and may fail. -/
abbrev Allocating (α : Type) : Type :=
  StateT Heap (Except EvalError) α

namespace Allocating

/-- The list with the given elements, newly created. -/
def newList (vs : List Value) : Allocating Value :=
  fun h => let (r, h') := h.newList vs; .ok (.list r, h')

/-- The dictionary with the given entries, newly created. -/
def newDict (d : Dict Value) : Allocating Value :=
  fun h => let (r, h') := h.newDict d; .ok (.dict r, h')

end Allocating

namespace Value

/-- A new container with the elements of the old one; any other value is its own copy. -/
def shallowCopy : Value → Allocating Value
  | .list r => do Allocating.newList ((← get).items r)
  | .dict r => do Allocating.newDict ((← get).table r)
  | v => pure v

/-- The copy of a value that stands at most `levels` levels of containers above its deepest
element. -/
def copyAt : Nat → Value → Allocating Value
  | 0, _ => throw .nestedTooDeep
  | levels + 1, .list r => do
    let items := (← get).items r
    let copies ← items.mapM (copyAt levels)
    Allocating.newList copies
  | levels + 1, .dict r => do
    let table := (← get).table r
    let copies ← table.entries.mapM fun e => do return (e.1, ← copyAt levels e.2)
    Allocating.newDict (Dict.ofList copies)
  | _ + 1, v => pure v

/-- A copy of the value and of everything in it. -/
def deepCopy (v : Value) : Allocating Value :=
  copyAt (nestingLimit + 1) v

end Value

end ModalScript
