/-
Settings: the typed values that configure the editor, where they live, and what can go
wrong with them.

A setting has one of four types.  Its value is either shared by all editors or, for a
setting that is kept per editor, held once for each editor beside a shared value that new
editors start from.
-/
import ModalScript.Decimal.Numeral
import ModalScript.Editor.Id

namespace ModalScript

/-! ### Types and values -/

/-- The type of a setting. -/
inductive SettingType where
  | flag
  | number
  | text
  | tokens
  deriving DecidableEq

/-- The name of a type in messages. -/
def SettingType.name : SettingType → String
  | .flag => "boolean"
  | .number => "number"
  | .text => "string"
  | .tokens => "string list"

/-- The value of a setting. -/
inductive SettingValue where
  | flag (b : Bool)
  | number (n : Int64)
  | text (s : String)
  | tokens (ts : List String)
  deriving DecidableEq, Inhabited

namespace SettingValue

/-- The type a value belongs to. -/
def type : SettingValue → SettingType
  | .flag _ => .flag
  | .number _ => .number
  | .text _ => .text
  | .tokens _ => .tokens

/-- Tokens written one after the other with commas between them. -/
def joinTokens (ts : List String) : String :=
  String.ofList ([','].intercalate (ts.map String.toList))

/-- The value as text: a flag is 0 or 1 and tokens are separated by commas. -/
def display : SettingValue → String
  | .flag b => if b then "1" else "0"
  | .number n => Decimal.text n
  | .text s => s
  | .tokens ts => joinTokens ts

end SettingValue

/-! ### Where a value lives -/

/-- Whether the editors share one value of a setting or have one each. -/
inductive SettingKind where
  | shared
  | perEditor
  deriving DecidableEq

/-- The place a value is read from or written to. -/
inductive SettingScope where
  | shared
  | editor (id : EditorId)
  deriving DecidableEq

/-! ### Errors -/

/-- What can go wrong with a setting. -/
inductive SettingError where
  | unknown (name : String)
  | alreadyDeclared (name : String)
  /-- The value cannot be read as one of the setting's type. -/
  | invalid (name value : String)
  | numberRequired (name value : String)
  | wrongType (name : String) (expected actual : SettingType)
  /-- A check of the value, or somebody who was told of the change, refused it. -/
  | rejected (name value reason : String)
  deriving DecidableEq

/-- The text of an error. -/
def SettingError.message : SettingError → String
  | .unknown name => "E518: Unknown option: " ++ name
  | .alreadyDeclared name => "option already declared: " ++ name
  | .invalid name value => "E474: Invalid argument: " ++ name ++ "=" ++ value
  | .numberRequired name value => "E521: Number required after =: " ++ name ++ "=" ++ value
  | .wrongType name expected actual =>
    "E474: " ++ name ++ " is a " ++ actual.name ++ " option, not a " ++ expected.name ++ " option"
  | .rejected name value reason =>
    "E474: Invalid argument: " ++ name ++ "=" ++ value ++ " (" ++ reason ++ ")"

end ModalScript
