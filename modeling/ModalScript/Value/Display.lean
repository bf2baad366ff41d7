/-
The written form of values.

`Heap.write` gives the form that `string()` answers: strings are quoted, containers list
their elements.  Containers that stand `nestingLimit` levels deep are left out, so that a
container holding itself has a written form too.  `Heap.echo` is the form that is shown to
the user, in which a string or a function stands for itself.
-/
import ModalScript.Decimal.Layout
import ModalScript.Text.Quoted
import ModalScript.Value.Conversion
import ModalScript.Value.Heap

namespace ModalScript

/-- How many levels of containers are written, compared, copied or encoded. -/
def nestingLimit : Nat :=
  100

namespace Value

/-- Floats are written without an exponent.  Whole numbers below 10^16 get one decimal, and
of two equally near shortest decimals the larger one is written. -/
def floatLayout : Decimal.Layout where
  tie := .up
  plain _ := true
  pointZero e := e ≤ 15

/-- The written form of a float. -/
def floatText (x : Float) : String :=
  match Decimal.parts x with
  | .nan => "nan"
  | .infinite negative => if negative then "-inf" else "inf"
  | .finite negative m e => floatLayout.write negative m e

/-- The written form of a function. -/
def funcrefText (name : List Char) : List Char :=
  "function('".toList ++ name ++ "')".toList

end Value

namespace Heap

/-- Parts between an opening and a closing bracket, with commas between them. -/
def bracketed (left right : Char) (parts : List (List Char)) : List Char :=
  left :: [',', ' '].intercalate parts ++ [right]

/-- The written form of a key and of its value. -/
def writeEntry (key : String) (value : List Char) : List Char :=
  '\'' :: key.toList ++ ['\'', ':', ' '] ++ value

/-- The written form of a value of which `levels` levels of containers are written. -/
def writeAt (h : Heap) : Nat → Value → List Char
  | _, .integer n => (Decimal.text n).toList
  | _, .float x => (Value.floatText x).toList
  | _, .string s => Text.quoted s.toList
  | _, .funcref name => Value.funcrefText name.toList
  | 0, .list _ => "[...]".toList
  | 0, .dict _ => ['\x7b', '.', '.', '.', '\x7d']
  | levels + 1, .list r => bracketed '[' ']' ((h.items r).map (h.writeAt levels))
  | levels + 1, .dict r =>
    bracketed '\x7b' '\x7d'
      ((h.table r).entries.map fun e => writeEntry e.1 (h.writeAt levels e.2))

/-- The written form of a value. -/
def write (h : Heap) (v : Value) : String :=
  String.ofList (h.writeAt nestingLimit v)

/-- The form in which a value is shown to the user. -/
def echo (h : Heap) : Value → String
  | .string s => s
  | .funcref name => name
  | v => h.write v

end Heap

end ModalScript
