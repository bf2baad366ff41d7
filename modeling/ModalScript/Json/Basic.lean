/-
JSON values.

Numbers that are 64-bit integers are kept apart from the others, and the members of an
object stand in the order in which they are written.
-/
import ModalScript.Decimal.Layout
import ModalScript.Decimal.Numeral

namespace ModalScript

/-- A JSON value. -/
inductive Json where
  | null
  | bool (b : Bool)
  | integer (n : Int64)
  | float (x : Float)
  | string (s : String)
  | array (items : List Json)
  | object (members : List (String × Json))
  deriving Inhabited

end ModalScript
