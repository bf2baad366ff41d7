/-
Numerals: 64-bit integers written in digits.

`read` takes a whole text for an integer in some radix, with at most one sign, and
refuses what does not fit in 64 bits.  `leading` takes the integer at the start of a
text and stops short of what does not fit, so that it answers for every text.  `text`
writes an integer in decimal.

Digits are the ASCII ones, and for a radix above ten the ASCII letters of either case.
-/
import ModalScript.Text.Blank

namespace ModalScript.Decimal

/-- The value of a character as a digit of the given radix. -/
def digit? (radix : Nat) (c : Char) : Option Nat :=
  let n := c.toNat
  let value? :=
    if 48 ≤ n && n ≤ 57 then some (n - 48)
    else if 97 ≤ n && n ≤ 122 then some (n - 87)
    else if 65 ≤ n && n ≤ 90 then some (n - 55)
    else none
  value?.filter (· < radix)

/-- The number that a list of digits continues from `acc`, or nothing if some character
is not a digit. -/
def continued? (radix : Nat) (acc : Nat) : List Char → Option Nat
  | [] => some acc
  | c :: cs =>
    match digit? radix c with
    | some d => continued? radix (acc * radix + d) cs
    | none => none

/-- The number that a non-empty list of digits writes. -/
def natural? (radix : Nat) (cs : List Char) : Option Nat :=
  if cs.isEmpty then none else continued? radix 0 cs

/-- The integer as a 64-bit one, if it is in range. -/
def narrow? (n : Int) : Option Int64 :=
  if Int64.minValue.toInt ≤ n ∧ n ≤ Int64.maxValue.toInt then some (Int64.ofInt n) else none

/-- The 64-bit integer that the whole text writes in the given radix: at most one sign,
then one or more digits. -/
def read? (radix : Nat) (cs : List Char) : Option Int64 :=
  match cs with
  | '-' :: rest => (natural? radix rest).bind fun n => narrow? (-n)
  | '+' :: rest => (natural? radix rest).bind fun n => narrow? n
  | _ => (natural? radix cs).bind fun n => narrow? n

/-! ### The integer at the start of a text -/

/-- A natural number as a 64-bit integer, the largest one standing for all that exceed it. -/
def clamp (n : Nat) : Int64 :=
  Int64.ofNat (min n 0x7FFFFFFFFFFFFFFF)

/-- An integer as a 64-bit one, the least and the largest one standing for all beyond them. -/
def saturate (n : Int) : Int64 :=
  if n < Int64.minValue.toInt then Int64.minValue
  else if Int64.maxValue.toInt < n then Int64.maxValue
  else Int64.ofInt n

/-- The number with one more decimal digit behind it.  The product and the sum saturate. -/
def appendDigit (n : Int64) (d : Nat) : Int64 :=
  saturate ((saturate (n.toInt * 10)).toInt + d)

/-- The number that the decimal digits at the start of a text continue from `acc`. -/
def leadingFrom (acc : Int64) : List Char → Int64
  | [] => acc
  | c :: cs =>
    match digit? 10 c with
    | some d => leadingFrom (appendDigit acc d) cs
    | none => acc

/-- The integer at the start of a text: blanks, at most one sign, decimal digits.  What
follows is ignored, a text without digits gives 0, and the size saturates. -/
def leading (cs : List Char) : Int64 :=
  match Text.trimStart cs with
  | '-' :: rest => -leadingFrom 0 rest
  | '+' :: rest => leadingFrom 0 rest
  | rest => leadingFrom 0 rest

/-! ### Writing -/

/-- An integer in decimal. -/
def text (n : Int64) : String :=
  n.toInt.repr

end ModalScript.Decimal
