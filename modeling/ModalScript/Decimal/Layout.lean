/-
Laying out significant digits: where the point stands, and when an exponent is written.

The decisions of one number format are the fields of one `Layout`; `Layout.write` applies
them to a sign and to the digits that `shortest` chose.
-/
import ModalScript.Decimal.Shortest

namespace ModalScript.Decimal

/-- The decisions of a number format. -/
structure Layout where
  /-- Which of two equally near shortest decimals is written. -/
  tie : Tie
  /-- The exponents of the first digit at which no exponent part is written. -/
  plain : Int → Bool
  /-- The exponents of the first digit at which a whole number gets a zero after the point. -/
  pointZero : Int → Bool

/-- The digits with the point in its place and no exponent part. -/
def Digits.positional (d : Digits) (pointZero : Bool) : List Char :=
  if d.exponent < 0 then
    '0' :: '.' :: List.replicate (-d.exponent - 1).toNat '0' ++ d.digits
  else
    let whole := d.exponent.toNat + 1
    if d.digits.length ≤ whole then
      d.digits ++ List.replicate (whole - d.digits.length) '0' ++
        (if pointZero then ['.', '0'] else [])
    else d.digits.take whole ++ '.' :: d.digits.drop whole

/-- One digit before the point, and a signed exponent. -/
def Digits.scientific (d : Digits) : List Char :=
  let rest := d.digits.drop 1
  d.digits.take 1 ++ (if rest.isEmpty then [] else '.' :: rest) ++
    'e' :: (if d.exponent < 0 then '-' else '+') :: Nat.toDigits 10 d.exponent.natAbs

/-- The text of ± m · 2^e in a format. -/
def Layout.write (f : Layout) (negative : Bool) (m : Nat) (e : Int) : String :=
  let d := shortest f.tie m e
  let body :=
    if f.plain d.exponent then d.positional (f.pointZero d.exponent) else d.scientific
  String.ofList (if negative then '-' :: body else body)

end ModalScript.Decimal
