/-
Writing JSON, without any blanks.

In strings the quote, the backslash and the control characters below the space are escaped
and nothing else is.  A float that is not finite is written `null`.
-/
import ModalScript.Json.Basic

namespace ModalScript.Json

/-- Numbers have an exponent from 10^16 on and below 10^-5, whole numbers without one have
a decimal, and of two equally near shortest decimals the even one is written. -/
def floatLayout : Decimal.Layout where
  tie := .toEven
  plain e := -5 ≤ e && e ≤ 15
  pointZero _ := true

/-- The text of a float. -/
def floatText (x : Float) : List Char :=
  match Decimal.parts x with
  | .nan | .infinite _ => "null".toList
  | .finite negative m e => (floatLayout.write negative m e).toList

/-- The lowercase hexadecimal digit of a number below sixteen. -/
def hexDigit (n : Nat) : Char :=
  Nat.digitChar n

/-- A character as it stands in a string. -/
def escapeChar (c : Char) : List Char :=
  if c = '"' then ['\\', '"']
  else if c = '\\' then ['\\', '\\']
  else if c = '\x08' then ['\\', 'b']
  else if c = '\x0c' then ['\\', 'f']
  else if c = '\n' then ['\\', 'n']
  else if c = '\r' then ['\\', 'r']
  else if c = '\t' then ['\\', 't']
  else if c.toNat < 32 then
    ['\\', 'u', '0', '0', hexDigit (c.toNat / 16), hexDigit (c.toNat % 16)]
  else [c]

/-- A string between quotes. -/
def stringText (s : String) : List Char :=
  '"' :: s.toList.flatMap escapeChar ++ ['"']

mutual

/-- The text of a value. -/
def text : Json → List Char
  | .null => "null".toList
  | .bool b => if b then "true".toList else "false".toList
  | .integer n => (Decimal.text n).toList
  | .float x => floatText x
  | .string s => stringText s
  | .array items => '[' :: [','].intercalate (texts items) ++ [']']
  | .object members => '\x7b' :: [','].intercalate (memberTexts members) ++ ['\x7d']

/-- The texts of the items of an array. -/
def texts : List Json → List (List Char)
  | [] => []
  | j :: js => j.text :: texts js

/-- The texts of the members of an object. -/
def memberTexts : List (String × Json) → List (List Char)
  | [] => []
  | (k, j) :: ms => (stringText k ++ ':' :: j.text) :: memberTexts ms

end

end ModalScript.Json
