/-
Settings as a script sees them.

A flag reads as 0 or 1 and a list of tokens as a text with commas.  A script value is
converted to the type of the setting it is assigned to.
-/
import ModalScript.Setting.Edit
import ModalScript.Value.Display

namespace ModalScript

/-- The script value of a setting's value. -/
def SettingValue.toValue : SettingValue → Value
  | .flag b => .bool b
  | .number n => .integer n
  | v => .string v.display

namespace Settings

/-- The script value of the setting with a name. -/
def getValue (s : Settings) (scope : SettingScope) (name : String) :
    Except SettingError Value :=
  (s.get scope name).map SettingValue.toValue

/-- An element of a list as a token. -/
def tokenOf? : Value → Option String
  | .string s => some s
  | .integer n => some (Decimal.text n)
  | _ => none

/-- The value of a setting's type that a script value stands for. -/
def coerce (h : Heap) (d : SettingDeclaration) (v : Value) : Except SettingError SettingValue :=
  match d.type, v with
  | .flag, .integer n => .ok (.flag (n != 0))
  | .number, .integer n => .ok (.number n)
  | .number, .string s | .text, .string s | .tokens, .string s => parseText d s
  | .text, .integer n => .ok (.text (Decimal.text n))
  | .tokens, .list r =>
    match (h.items r).mapM tokenOf? with
    | some ts => .ok (.tokens ts)
    | none => .error (.invalid d.name (h.write v))
  | _, _ => .error (.invalid d.name (h.write v))

/-- Gives the setting with a name the value that a script value stands for. -/
def assign (h : Heap) (scope : SettingScope) (name : String) (v : Value) : Configure Unit := do
  let d ← (← MonadState.get).declaration? name
  let converted ← coerce h d v
  commit d scope converted

end Settings

end ModalScript
