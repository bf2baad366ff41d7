/-
The commands `set`, `setlocal` and `setglobal`.

Their argument is a list of items with blanks between them; a backslash keeps a blank in an
item (`splitItems`).  An item names a setting and says what to do with it.  Items are
applied from left to right, and the first one that fails ends the command.  What they have
to show is shown in any case.
-/
import ModalScript.Script.Error
import ModalScript.Script.Syntax
import ModalScript.Setting.Edit

namespace ModalScript

/-! ### Items -/

/-- What an item does with a setting. -/
inductive SetAction where
  /-- Turns a flag on, and shows any other setting. -/
  | plain
  | show
  | disable
  | toggle
  | reset
  | assign (text : String)
  | edit (e : Edit) (operand : String)
  deriving DecidableEq

/-- An item. -/
inductive SetItem where
  | showAll
  | resetAll
  | setting (name : String) (action : SetAction)
  deriving DecidableEq

/-- The items of the rest of an argument, where `item` has been read so far (last character
first). -/
def splitItemsFrom (item : List Char) : List Char → List (List Char)
  | [] => if item.isEmpty then [] else [item.reverse]
  | '\\' :: c :: cs =>
    if Text.isBlank c ∨ c = '\\' then splitItemsFrom (c :: item) cs
    else splitItemsFrom (c :: '\\' :: item) cs
  | c :: cs =>
    if Text.isBlank c then
      if item.isEmpty then splitItemsFrom [] cs else item.reverse :: splitItemsFrom [] cs
    else splitItemsFrom (c :: item) cs

/-- The items of an argument. -/
def splitItems (s : String) : List String :=
  (splitItemsFrom [] s.toList).map String.ofList

/-- The error of an item that cannot be read. -/
def invalidItem (text : String) : ExecError :=
  .statement ("E474: Invalid argument: " ++ text)

/-- Whether a character can stand in the name of a setting. -/
def isNameChar (c : Char) : Bool :=
  c.isAlphanum || c == '_'

/-- What the characters behind the name of a setting say. -/
def SetAction.ofChars? : List Char → Option SetAction
  | [] => some .plain
  | ['?'] => some .show
  | ['!'] => some .toggle
  | ['&'] => some .reset
  | '+' :: '=' :: operand => some (.edit .append (String.ofList operand))
  | '-' :: '=' :: operand => some (.edit .remove (String.ofList operand))
  | '^' :: '=' :: operand => some (.edit .prepend (String.ofList operand))
  | '=' :: text | ':' :: text => some (.assign (String.ofList text))
  | _ => none

/-- Reads an item. -/
def SetItem.parse (text : String) : Except ExecError SetItem :=
  if text = "all" then .ok .showAll
  else if text = "all&" then .ok .resetAll
  else
    let name := text.toList.takeWhile isNameChar
    match name, SetAction.ofChars? (text.toList.dropWhile isNameChar) with
    | _ :: _, some action => .ok (.setting (String.ofList name) action)
    | _, _ => .error (invalidItem text)

/-! ### Scopes -/

namespace SetKind

/-- The scope that a command reads. -/
def readScope (kind : SetKind) (id : EditorId) : SettingScope :=
  match kind with
  | .shared => .shared
  | .both | .own => .editor id

/-- The scopes that a command writes, for a setting kept in the given way. -/
def writeScopes (kind : SetKind) (id : EditorId) (kept : SettingKind) : List SettingScope :=
  match kind, kept with
  | .both, .perEditor => [.editor id, .shared]
  | .own, .perEditor => [.editor id]
  | .shared, _ | _, .shared => [.shared]

end SetKind

/-! ### Applying items -/

/-- A setting and its value as they are shown. -/
def describe (name : String) : SettingValue → String
  | .flag true => "  " ++ name
  | .flag false => "no" ++ name
  | v => "  " ++ name ++ "=" ++ v.display

/-- The settings, and what is to be shown, oldest first. -/
structure SetProgress where
  settings : Settings
  shown : List String

/-- A part of what a settings command does. -/
abbrev SetRun (α : Type) : Type :=
  ExceptT ExecError (StateM SetProgress) α

namespace SetRun

/-- A change of the settings. -/
def configure (m : Configure Unit) : SetRun Unit :=
  fun p =>
    let (r, settings) := m p.settings
    (match r with | .ok () => .ok () | .error e => .error (.setting e), { p with settings })

/-- Shows the value of a setting. -/
def showSetting (scope : SettingScope) (d : SettingDeclaration) : SetRun Unit :=
  modify fun p =>
    { p with shown := p.shown ++ [describe d.name (p.settings.current scope d)] }

/-- Finds the setting that an item means.  A plain item with `no` or `inv` in front of the
name of a flag turns the flag off or over, unless a setting has the whole name. -/
def resolve (s : Settings) (name : String) (action : SetAction) :
    Except ExecError (SettingDeclaration × SetAction) :=
  match s.declaration? name, action with
  | .ok d, _ => .ok (d, action)
  | .error e, .plain =>
    match negated "no" .disable with
    | some r => r
    | none => (negated "inv" .toggle).getD (.error (.setting e))
  | .error e, _ => .error (.setting e)
where
  /-- The flag whose name stands behind a mark, with the action of that mark. -/
  negated (mark : String) (meant : SetAction) :
      Option (Except ExecError (SettingDeclaration × SetAction)) :=
    match mark.toList.isPrefixOf? name.toList with
    | none => none
    | some bare =>
      match s.declaration? (String.ofList bare) with
      | .error _ => none
      | .ok d => some (if d.type = .flag then .ok (d, meant) else .error (invalidItem name))

/-- Changes a setting at all scopes that the command writes. -/
def onAll (kind : SetKind) (id : EditorId) (d : SettingDeclaration)
    (f : SettingScope → Configure Unit) : SetRun Unit :=
  (kind.writeScopes id d.kind).forM fun scope => configure (f scope)

/-- Turns a flag over, in view of the value that the command reads. -/
def flip (kind : SetKind) (id : EditorId) (d : SettingDeclaration) : SetRun Unit := do
  match (← get).settings.isOn (kind.readScope id) d.name with
  | .ok b => onAll kind id d fun scope => Settings.setValue scope d.name (.flag !b)
  | .error e => throw (.setting e)

/-- Does with a setting what an item says. -/
def act (kind : SetKind) (id : EditorId) (d : SettingDeclaration) : SetAction → SetRun Unit
  | .plain =>
    if d.type = .flag then onAll kind id d fun scope => Settings.turnOn scope d.name
    else showSetting (kind.readScope id) d
  | .show => showSetting (kind.readScope id) d
  | .disable => onAll kind id d fun scope => Settings.turnOff scope d.name
  | .toggle => if d.type = .flag then flip kind id d else throw (invalidItem (d.name ++ "!"))
  | .reset => onAll kind id d fun scope => Settings.reset scope d.name
  | .assign text => onAll kind id d fun scope => Settings.setText scope d.name text
  | .edit e operand => onAll kind id d fun scope => Settings.edit scope d.name operand e

/-- Applies an item. -/
def applyItem (kind : SetKind) (id : EditorId) : SetItem → SetRun Unit
  | .showAll => do
    (← get).settings.declarations.forM (showSetting (kind.readScope id))
  | .resetAll => do
    (← get).settings.declarations.forM fun d =>
      onAll kind id d fun scope => Settings.reset scope d.name
  | .setting name action => do
    let (d, action) ← resolve (← get).settings name action
    act kind id d action

/-- Shows the settings that do not have their default values. -/
def showChanged (kind : SetKind) (id : EditorId) : SetRun Unit := do
  let s := (← get).settings
  let scope := kind.readScope id
  (s.declarations.filter fun d => s.current scope d ≠ d.default).forM (showSetting scope)

/-- Reads an item and applies it. -/
def runItem (kind : SetKind) (id : EditorId) (text : String) : SetRun Unit := do
  let item ← SetItem.parse text
  applyItem kind id item

/-- What a settings command does with its argument. -/
def run (kind : SetKind) (id : EditorId) (argument : String) : SetRun Unit :=
  match splitItems argument with
  | [] => showChanged kind id
  | items => items.forM (runItem kind id)

end SetRun

end ModalScript
