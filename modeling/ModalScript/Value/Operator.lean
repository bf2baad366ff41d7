/-
The operators of the script language, on values.

Arithmetic takes a string for the number at its start and becomes floating-point as soon
as one side is a float; integers wrap around at 64 bits.  Texts are only joined by `..`.
Comparisons order two strings by their characters and everything else by number.
-/
import ModalScript.Value.Copy
import ModalScript.Value.Equality

namespace ModalScript

/-! ### Names of the operators -/

/-- Operators with one operand. -/
inductive UnaryOp where
  | negate
  | not
  | plus
  deriving DecidableEq

/-- The symbol of an operator with one operand. -/
def UnaryOp.symbol : UnaryOp → String
  | .negate => "-"
  | .not => "!"
  | .plus => "+"

/-- Operators of arithmetic. -/
inductive Arithmetic where
  | add
  | sub
  | mul
  | div
  | mod
  deriving DecidableEq

/-- Operators with two operands. -/
inductive BinaryOp where
  | arithmetic (op : Arithmetic)
  | concat
  | eq
  | ne
  | lt
  | le
  | gt
  | ge
  | and
  | or
  | is
  | isNot
  deriving DecidableEq

/-- The symbol of an operator with two operands. -/
def BinaryOp.symbol : BinaryOp → String
  | .arithmetic .add => "+"
  | .arithmetic .sub => "-"
  | .arithmetic .mul => "*"
  | .arithmetic .div => "/"
  | .arithmetic .mod => "%"
  | .concat => ".."
  | .eq => "=="
  | .ne => "!="
  | .lt => "<"
  | .le => "<="
  | .gt => ">"
  | .ge => ">="
  | .and => "&&"
  | .or => "||"
  | .is => "is"
  | .isNot => "isnot"

/-! ### Arithmetic -/

namespace Arithmetic

/-- The result on two integers. -/
def onIntegers : Arithmetic → Int64 → Int64 → Except EvalError Int64
  | .add, a, b => .ok (a + b)
  | .sub, a, b => .ok (a - b)
  | .mul, a, b => .ok (a * b)
  | .div, a, b => if b = 0 then .error .divisionByZero else .ok (a / b)
  | .mod, a, b => if b = 0 then .error .divisionByZero else .ok (a % b)

/-- The result on two floats.  There is no remainder of floats. -/
def onFloats : Arithmetic → Float → Float → Except EvalError Float
  | .add, a, b => .ok (a + b)
  | .sub, a, b => .ok (a - b)
  | .mul, a, b => .ok (a * b)
  | .div, a, b => if b == 0.0 then .error .divisionByZero else .ok (a / b)
  | .mod, _, _ => .error (.typeMismatch .number .float)

end Arithmetic

namespace Value

/-- Whether a value is a container or a function, of which there is no arithmetic. -/
def isCompound : Value → Bool
  | .list _ | .dict _ | .funcref _ => true
  | _ => false

/-- Whether a value is a float. -/
def isFloat : Value → Bool
  | .float _ => true
  | _ => false

/-- Arithmetic on two values: two lists are joined by addition, two numbers are computed
with. -/
def arithmetic (op : Arithmetic) : Value → Value → Allocating Value
  | .list r, .list r' =>
    if op = .add then do
      let h ← get
      Allocating.newList (h.items r ++ h.items r')
    else throw (.typeMismatch .number .list)
  | a, b =>
    if a.isCompound then throw (a.mismatch .number)
    else if b.isCompound then throw (b.mismatch .number)
    else if a.isFloat || b.isFloat then do
      let x ← a.toFloat
      let y ← b.toFloat
      return .float (← op.onFloats x y)
    else do
      let m ← a.toNumber
      let n ← b.toNumber
      return .integer (← op.onIntegers m n)

/-! ### Text -/

/-- The text that a value contributes when texts are joined. -/
def concatText : Value → Except EvalError String
  | .float x => .ok (floatText x)
  | v => v.toText

/-! ### Comparison -/

/-- Whether the operator `==` finds two values equal. -/
def looselyEqual (h : Heap) : Value → Value → Except EvalError Bool
  | .list r, .list r' => h.equal (.list r) (.list r')
  | .dict r, .dict r' => h.equal (.dict r) (.dict r')
  | .funcref name, .funcref name' => .ok (name == name')
  | .string s, .string s' => .ok (s == s')
  | a, b =>
    if a.isCompound then .error (a.mismatch b.kind)
    else if b.isCompound then .error (b.mismatch a.kind)
    else if a.isFloat || b.isFloat then do
      let x ← a.toFloat
      let y ← b.toFloat
      return x == y
    else do
      let m ← a.toNumber
      let n ← b.toNumber
      return m == n

/-- The order of two floats; those that are not ordered count as equal. -/
def orderFloats (x y : Float) : Ordering :=
  if x < y then .lt else if y < x then .gt else .eq

/-- The order in which two values stand. -/
def order : Value → Value → Except EvalError Ordering
  | .string s, .string s' => .ok (compareOfLessAndEq s s')
  | a, b =>
    if a.isCompound then .error (a.mismatch .number)
    else if b.isCompound then .error (b.mismatch .number)
    else if a.isFloat || b.isFloat then do
      let x ← a.toFloat
      let y ← b.toFloat
      return orderFloats x y
    else do
      let m ← a.toNumber
      let n ← b.toNumber
      return compareOfLessAndEq m n

/-! ### All operators -/

/-- The result of an operator with one operand. -/
def unary : UnaryOp → Value → Except EvalError Value
  | .not, v => v.toCondition.map fun b => .bool !b
  | .negate, .float x => .ok (.float (-x))
  | .negate, v => v.toNumber.map fun n => .integer (-n)
  | .plus, .float x => .ok (.float x)
  | .plus, v => v.toNumber.map .integer

/-- The result of an operator on two operands that have been evaluated. -/
def binary : BinaryOp → Value → Value → Allocating Value
  | .arithmetic op, a, b => arithmetic op a b
  | .concat, a, b => do
    let s ← a.concatText
    let t ← b.concatText
    return .string (s ++ t)
  | .eq, a, b => do return .bool (← looselyEqual (← get) a b)
  | .ne, a, b => do return .bool !(← looselyEqual (← get) a b)
  | .lt, a, b => do return .bool ((← order a b) == .lt)
  | .le, a, b => do return .bool ((← order a b) != .gt)
  | .gt, a, b => do return .bool ((← order a b) == .gt)
  | .ge, a, b => do return .bool ((← order a b) != .lt)
  | .and, a, b => do
    if ← a.toCondition then return .bool (← b.toCondition) else return .bool false
  | .or, a, b => do
    if ← a.toCondition then return .bool true else return .bool (← b.toCondition)
  | .is, a, b => return .bool (a.same b)
  | .isNot, a, b => return .bool !(a.same b)

/-! ### Indexing -/

/-- The place in a list of the given length that an index means; a negative index counts
from the end. -/
def resolveIndex (i : Int64) (length : Nat) : Option Nat :=
  let place := if i < 0 then (length : Int) + i.toInt else i.toInt
  if length < 0x8000000000000000 ∧ 0 ≤ place ∧ place < length then some place.toNat else none

/-- The character at a place of a text, as a text; nothing stands outside of it. -/
def charAt (s : String) (i : Int64) : String :=
  if i < 0 then "" else String.ofList (s.toList[i.toInt.toNat]?).toList

/-- The element of a list, the value of a key of a dictionary, or the character of a string,
that an index selects. -/
def index (h : Heap) : Value → Value → Except EvalError Value
  | .list r, i => do
    let n ← i.toNumber
    match (resolveIndex n (h.items r).length).bind ((h.items r)[·]?) with
    | some v => .ok v
    | none => .error (.indexOutOfRange n)
  | .dict r, k => do
    let key ← k.toText
    match (h.table r).get? key with
    | some v => .ok v
    | none => .error (.missingKey key)
  | .string s, i => do
    let n ← i.toNumber
    return .string (charAt s n)
  | v, _ => .error (v.mismatch .list)

end Value

end ModalScript
