/-
The number that a user types for a setting.

Digits are read in base 16 after `0x`, in base 8 after a leading zero, and in base 10
otherwise.  One minus may stand in front of all that, and one sign in front of the digits.
-/
import ModalScript.Decimal.Numeral

namespace ModalScript.SettingNumber

/-- The number written in the base that its first characters announce. -/
def magnitude? : List Char → Option Int64
  | '0' :: 'x' :: rest | '0' :: 'X' :: rest => Decimal.read? 16 rest
  | '0' :: c :: rest => Decimal.read? 8 (c :: rest)
  | cs => Decimal.read? 10 cs

/-- The number that a text writes. -/
def parse? (s : String) : Option Int64 :=
  match s.toList with
  | '-' :: rest => (magnitude? rest).map fun n => -n
  | cs => magnitude? cs

end ModalScript.SettingNumber
