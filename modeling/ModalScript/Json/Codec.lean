/-
The way from JSON values to texts and back.

The script language does not read and write JSON itself: it makes a JSON value and leaves the
text to a codec.  `Json.Codec` is what it needs of one, and `Json.compact` is the codec of the
program.  It takes every text for JSON that `Json.parse` does, and writes no blanks.

A value can stop being written, with a message that says why.  The codec makes an error of the
message, and an error has a place: if the message ends in one, as in
"what is wrong at line 3 column 14", then that is taken for the place of the error.
-/
import ModalScript.Json.Reader
import ModalScript.Json.Writer
import ModalScript.Text.Cut

namespace ModalScript.Json

/-- A way of writing and reading JSON. -/
class Codec where
  /-- The text of a value. -/
  write : Json → String
  /-- The value of a text, or what is wrong with the text. -/
  read : String → Except String Json
  /-- The text of the error that is made of a message when a value stops being written. -/
  refusal : String → String

/-! ### Places at the end of a message -/

/-- The number that decimal digits write, if it has at most 64 bits. -/
def placeNumber? (cs : List Char) : Option Nat :=
  (Decimal.natural? 10 cs).filter (· < UInt64.size)

/-- What stands in front of the last " at line ", and the line and the column behind it, if
these two are all that stands there. -/
def place? (cs : List Char) : Option (List Char × Nat × Nat) := do
  -- from behind, the last occurrence is the first one
  let (behind, front) ← Text.breakOn " at line ".toList.reverse cs.reverse
  let (line, rest) := behind.reverse.span Char.isDigit
  let column ← " column ".toList.isPrefixOf? rest
  return (front.reverse, ← placeNumber? line, ← placeNumber? column)

/-- The text of an error that is made of a message.  A place at the end of the message is
written anew, and not at all if its line is 0. -/
def errorText (message : String) : String :=
  match place? message.toList with
  | none => message
  | some (what, line, column) =>
    if line = 0 then String.ofList what else String.ofList what ++ placeText line column

/-- The codec of the program. -/
instance compact : Codec where
  write j := String.ofList j.text
  read s := (parse s.toList).mapError fun f => f.message s.toList
  refusal := errorText

end ModalScript.Json
