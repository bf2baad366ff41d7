/-
Equality of values.

`Heap.equal` compares the contents of containers.  A container always equals itself, which
decides some comparisons of containers that hold themselves; where it does not, containers
nested deeper than `nestingLimit` are an error.  `Value.same` asks instead whether two
values are one container, or equal and of one kind.
-/
import ModalScript.Value.Display

namespace ModalScript

/-- Whether a test holds for all pairs of elements at equal places.  The first pair that
fails it, or has no answer, decides. -/
def allPairs {α ε : Type} (test : α → α → Except ε Bool) : List α → List α → Except ε Bool
  | x :: xs, y :: ys =>
    match test x y with
    | .ok true => allPairs test xs ys
    | other => other
  | _, _ => .ok true

namespace Heap

/-- Structural equality of values that stand at most `levels` levels of containers above
their deepest element. -/
def equalAt (h : Heap) : Nat → Value → Value → Except EvalError Bool
  | 0, _, _ => .error .nestedTooDeep
  | levels + 1, .list r, .list r' =>
    if r = r' then .ok true
    else if (h.items r).length ≠ (h.items r').length then .ok false
    else allPairs (h.equalAt levels) (h.items r) (h.items r')
  | levels + 1, .dict r, .dict r' =>
    if r = r' then .ok true
    else if (h.table r).size ≠ (h.table r').size then .ok false
    else
      allPairs
        (fun e e' => if e.1 ≠ e'.1 then .ok false else h.equalAt levels e.2 e'.2)
        (h.table r).entries (h.table r').entries
  | _ + 1, .integer n, .integer n' => .ok (n == n')
  | _ + 1, .float x, .float x' => .ok (x == x')
  | _ + 1, .string s, .string s' => .ok (s == s')
  | _ + 1, .funcref name, .funcref name' => .ok (name == name')
  | _ + 1, _, _ => .ok false

/-- Structural equality of values. -/
def equal (h : Heap) (v w : Value) : Except EvalError Bool :=
  h.equalAt (nestingLimit + 1) v w

/-- Structural equality in which values that are nested too deep are unequal. -/
def equalOrDeep (h : Heap) (v w : Value) : Bool :=
  match h.equal v w with
  | .ok b => b
  | .error _ => false

end Heap

namespace Value

/-- Whether two values are one container, or equal and of one kind. -/
def same : Value → Value → Bool
  | .list r, .list r' => r == r'
  | .dict r, .dict r' => r == r'
  | .integer n, .integer n' => n == n'
  | .float x, .float x' => x == x'
  | .string s, .string s' => s == s'
  | .funcref name, .funcref name' => name == name'
  | _, _ => false

end Value

end ModalScript
