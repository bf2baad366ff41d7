/-
Values of the script language.

Lists and dictionaries are shared: a value holds a reference to the container, and the
container itself is in the `Heap`.  Two values with the same reference are the same
container, and a change through one is seen through the other.
-/
import ModalScript.Dict

namespace ModalScript

/-- A reference to a list. -/
structure ListRef where
  slot : Nat
  deriving DecidableEq, Inhabited

/-- A reference to a dictionary. -/
structure DictRef where
  slot : Nat
  deriving DecidableEq, Inhabited

/-- The kinds of values. -/
inductive Kind where
  | number
  | float
  | string
  | list
  | dict
  | func
  deriving DecidableEq

namespace Kind

/-- The name of a kind in messages. -/
def name : Kind → String
  | .number => "number"
  | .float => "float"
  | .string => "string"
  | .list => "list"
  | .dict => "dict"
  | .func => "func"

/-- The number by which a script tells the kinds apart. -/
def code : Kind → Int64
  | .number => 0
  | .string => 1
  | .func => 2
  | .list => 3
  | .dict => 4
  | .float => 5

end Kind

/-- A script value. -/
inductive Value where
  | integer (n : Int64)
  | float (x : Float)
  | string (s : String)
  | list (r : ListRef)
  | dict (r : DictRef)
  /-- A function, by its name. -/
  | funcref (name : String)
  deriving Inhabited, DecidableEq

namespace Value

/-- Truth values are the integers 1 and 0. -/
def bool (b : Bool) : Value :=
  .integer (if b then 1 else 0)

/-- The kind of a value. -/
def kind : Value → Kind
  | .integer _ => .number
  | .float _ => .float
  | .string _ => .string
  | .list _ => .list
  | .dict _ => .dict
  | .funcref _ => .func

end Value

end ModalScript
