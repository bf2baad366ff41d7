/-
Changing a setting relative to its current value.

An `Edit` adds to a number, a text or a list of tokens, puts something in front of it, or
takes something away.  `Edit.apply` computes the new value; a change that changes nothing
is not committed and nobody is told.
-/
import ModalScript.Setting.Store
import ModalScript.Text.Cut

namespace ModalScript

/-- A change relative to the current value. -/
inductive Edit where
  | append
  | prepend
  | remove
  deriving DecidableEq

namespace Edit

/-- The result on numbers: the sum, the product or the difference, if it fits in 64 bits. -/
def onNumber (edit : Edit) (n m : Int64) : Option Int64 :=
  match edit with
  | .append => Decimal.narrow? (n.toInt + m.toInt)
  | .prepend => Decimal.narrow? (n.toInt * m.toInt)
  | .remove => Decimal.narrow? (n.toInt - m.toInt)

/-- The result on texts. -/
def onText (edit : Edit) (s operand : String) : String :=
  match edit with
  | .append => s ++ operand
  | .prepend => operand ++ s
  | .remove => String.ofList (Text.removeFirst operand.toList s.toList)

/-- The tokens with one more at the end, unless it is among them. -/
def addToken (ts : List String) (t : String) : List String :=
  if t ∈ ts then ts else ts ++ [t]

/-- The result on lists of tokens: tokens that are there already are not added again. -/
def onTokens (edit : Edit) (ts operand : List String) : List String :=
  match edit with
  | .append => operand.foldl addToken ts
  | .prepend => operand.filter (· ∉ ts) ++ ts
  | .remove => ts.filter (· ∉ operand)

/-- The value that an edit makes of the current one. -/
def apply (edit : Edit) (d : SettingDeclaration) (current : SettingValue) (operand : String) :
    Except SettingError SettingValue :=
  match current with
  | .flag _ => .error (.invalid d.name operand)
  | .number n =>
    match SettingNumber.parse? operand with
    | none => .error (.numberRequired d.name operand)
    | some m =>
      match edit.onNumber n m with
      | some n => .ok (.number n)
      | none => .error (.invalid d.name operand)
  | .text s => .ok (.text (edit.onText s operand))
  | .tokens ts =>
    match d.tokenizer.tokenize operand with
    | some operand => .ok (.tokens (edit.onTokens ts operand))
    | none => .error (.invalid d.name operand)

end Edit

namespace Settings

/-- Applies an edit to the setting with a name. -/
def edit (scope : SettingScope) (name : String) (operand : String) (e : Edit) :
    Configure Unit := do
  let s ← MonadState.get
  let d ← s.declaration? name
  let current := s.current scope d
  let updated ← e.apply d current operand
  if updated = current then pure () else commit d scope updated

end Settings

end ModalScript
