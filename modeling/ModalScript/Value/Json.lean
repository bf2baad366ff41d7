/-
Values as JSON.

`Heap.toJson` gives the JSON value of a script value: lists become arrays and dictionaries
objects; functions have none, nor has anything nested deeper than `nestingLimit`.
`Value.ofJson` goes the other way and creates all containers anew; `true`, `false` and
`null` become 1, 0 and 0.  The texts are a codec's.
-/
import ModalScript.Json.Codec
import ModalScript.Value.Copy

namespace ModalScript

/-- Why a value has no JSON form. -/
inductive EncodeError where
  | nestedTooDeep
  | funcref (name : String)
  deriving DecidableEq

/-- What stops a value from being written, as the codec is told it. -/
def EncodeError.reason : EncodeError → String
  | .nestedTooDeep => EvalError.nestedTooDeep.message
  | .funcref name => "cannot encode Funcref " ++ name

/-- The text of an encoding error. -/
def EncodeError.message [Json.Codec] (e : EncodeError) : String :=
  Json.Codec.refusal e.reason

namespace Heap

/-- The JSON value of a value that stands at most `levels` levels of containers above its
deepest element. -/
def toJsonAt (h : Heap) : Nat → Value → Except EncodeError Json
  | 0, _ => .error .nestedTooDeep
  | _ + 1, .integer n => .ok (.integer n)
  | _ + 1, .float x => .ok (.float x)
  | _ + 1, .string s => .ok (.string s)
  | _ + 1, .funcref name => .error (.funcref name)
  | levels + 1, .list r => do
    return .array (← (h.items r).mapM (h.toJsonAt levels))
  | levels + 1, .dict r => do
    return .object (← (h.table r).entries.mapM fun e => do return (e.1, ← h.toJsonAt levels e.2))

/-- The JSON value of a value. -/
def toJson (h : Heap) (v : Value) : Except EncodeError Json :=
  h.toJsonAt (nestingLimit + 1) v

/-- The JSON text of a value. -/
def encode [Json.Codec] (h : Heap) (v : Value) : Except EncodeError String :=
  (h.toJson v).map Json.Codec.write

end Heap

namespace Value

mutual

/-- The value of a JSON value. -/
def ofJson : Json → Allocating Value
  | .null => pure (.integer 0)
  | .bool b => pure (.bool b)
  | .integer n => pure (.integer n)
  | .float x => pure (.float x)
  | .string s => pure (.string s)
  | .array js => do
    let vs ← ofJsons js
    Allocating.newList vs
  | .object ms => do
    let es ← ofMembers ms
    Allocating.newDict (Dict.ofList es)

/-- The values of the items of an array. -/
def ofJsons : List Json → Allocating (List Value)
  | [] => pure []
  | j :: js => do
    let v ← ofJson j
    let vs ← ofJsons js
    return v :: vs

/-- The values of the members of an object. -/
def ofMembers : List (String × Json) → Allocating (List (String × Value))
  | [] => pure []
  | (k, j) :: ms => do
    let v ← ofJson j
    let es ← ofMembers ms
    return (k, v) :: es

end

/-- The value that a JSON text writes. -/
def decode [Json.Codec] (s : String) : Allocating Value :=
  match Json.Codec.read s with
  | .ok j => ofJson j
  | .error message => throw (.invalidArgument ("json_decode: " ++ message))

end Value

end ModalScript
