/-
Names of variables.

A name may begin with the letter of a scope and a colon; `VariableName.parse` takes them
apart and `VariableName.text` puts them together again (`text_parse`).  A name without a
scope is looked for in several places.
-/

namespace ModalScript

/-- The places where variables are kept. -/
inductive VariableScope where
  | globals
  | script
  /-- The arguments of the function that is running, which a script cannot change. -/
  | arguments
  /-- The local variables of the function that is running. -/
  | locals
  | buffer
  | window
  | tab
  /-- The variables of the editor itself. -/
  | builtins
  deriving DecidableEq

namespace VariableScope

/-- The letter of a scope. -/
def letter : VariableScope → Char
  | .globals => 'g'
  | .script => 's'
  | .arguments => 'a'
  | .locals => 'l'
  | .buffer => 'b'
  | .window => 'w'
  | .tab => 't'
  | .builtins => 'v'

/-- The scope with a letter. -/
def ofLetter? : Char → Option VariableScope
  | 'g' => some .globals
  | 's' => some .script
  | 'a' => some .arguments
  | 'l' => some .locals
  | 'b' => some .buffer
  | 'w' => some .window
  | 't' => some .tab
  | 'v' => some .builtins
  | _ => none

theorem letter_of_ofLetter? {c : Char} {scope : VariableScope} (h : ofLetter? c = some scope) :
    scope.letter = c := by
  unfold ofLetter? at h
  split at h <;> cases h <;> rfl

end VariableScope

/-- The name of a variable. -/
structure VariableName where
  /-- Where the variable is; without a scope it is looked for. -/
  scope : Option VariableScope
  name : String
  deriving DecidableEq, Inhabited

namespace VariableName

/-- The scope that a text begins with, and the name behind it. -/
def parse (s : String) : VariableName :=
  match s.toList with
  | c :: ':' :: rest =>
    match VariableScope.ofLetter? c with
    | some scope => ⟨some scope, String.ofList rest⟩
    | none => ⟨none, s⟩
  | _ => ⟨none, s⟩

/-- The name as it is written. -/
def text (v : VariableName) : String :=
  match v.scope with
  | some scope => String.ofList [scope.letter, ':'] ++ v.name
  | none => v.name

/-- A name that has been parsed is written as it was. -/
theorem text_parse (s : String) : (parse s).text = s := by
  unfold parse
  split
  · next c rest hs =>
    split
    · next scope hc =>
      apply String.toList_inj.mp
      simp [text, hs, VariableScope.letter_of_ofLetter? hc]
    · rfl
  · rfl

end VariableName

end ModalScript
