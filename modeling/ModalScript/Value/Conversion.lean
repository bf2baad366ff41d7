/-
Conversions between kinds of values.

A string stands for the number at its start, an integer for its decimal text; floats,
containers and functions stand for neither, and asking is a type mismatch.
-/
import ModalScript.Script.Error

namespace ModalScript.Value

/-- The mismatch of a value with the kind that was expected. -/
def mismatch (expected : Kind) (v : Value) : EvalError :=
  .typeMismatch expected v.kind

/-- The value as a number: a string gives the number at its start. -/
def toNumber : Value → Except EvalError Int64
  | .integer n => .ok n
  | .string s => .ok (Decimal.leading s.toList)
  | v => .error (v.mismatch .number)

/-- The value as a condition: it holds unless it is zero. -/
def toCondition : Value → Except EvalError Bool
  | .float x => .ok (x != 0.0)
  | v => v.toNumber.map (· != 0)

/-- The value as text. -/
def toText : Value → Except EvalError String
  | .integer n => .ok (Decimal.text n)
  | .string s => .ok s
  | v => .error (v.mismatch .string)

/-- The value as a reference to a list. -/
def toList : Value → Except EvalError ListRef
  | .list r => .ok r
  | v => .error (v.mismatch .list)

/-- The value as a reference to a dictionary. -/
def toDict : Value → Except EvalError DictRef
  | .dict r => .ok r
  | v => .error (v.mismatch .dict)

/-- The value as a double. -/
def toFloat : Value → Except EvalError Float
  | .float x => .ok x
  | v => v.toNumber.map Int64.toFloat

end ModalScript.Value
