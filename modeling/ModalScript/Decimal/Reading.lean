/-
Reading a decimal as the nearest double.

The text is a sign, digits with at most one point, and an optional exponent; or one of
`nan`, `inf` and `-inf`.
-/
import ModalScript.Decimal.Numeral

namespace ModalScript.Decimal

/-- The double nearest to ± digits · 10^exponent. -/
def nearest (negative : Bool) (digits : Nat) (exponent : Int) : Float :=
  let x := Float.ofScientific digits (exponent < 0) exponent.natAbs
  if negative then -x else x

/-- The exponent part: nothing, or `e` and an integer. -/
def exponent? : List Char → Option Int
  | [] => some 0
  | 'e' :: rest | 'E' :: rest => (read? 10 rest).map Int64.toInt
  | _ => none

/-- The double nearest to an unsigned decimal. -/
def unsigned? (negative : Bool) (cs : List Char) : Option Float :=
  let whole := cs.takeWhile Char.isDigit
  let rest := cs.dropWhile Char.isDigit
  let fraction := match rest with
    | '.' :: r => r.takeWhile Char.isDigit
    | _ => []
  let rest := match rest with
    | '.' :: r => r.dropWhile Char.isDigit
    | r => r
  let digits := whole ++ fraction
  if digits.isEmpty then none
  else (exponent? rest).map fun e =>
    nearest negative (Nat.ofDigitChars 10 digits 0) (e - fraction.length)

/-- The double that a text denotes. -/
def float? (s : String) : Option Float :=
  match s.toList with
  | ['n', 'a', 'n'] => some (0.0 / 0.0)
  | ['i', 'n', 'f'] => some (1.0 / 0.0)
  | ['-', 'i', 'n', 'f'] => some (-1.0 / 0.0)
  | '-' :: rest => unsigned? true rest
  | '+' :: rest => unsigned? false rest
  | rest => unsigned? false rest

end ModalScript.Decimal
