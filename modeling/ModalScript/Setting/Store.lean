/-
The settings of an editor session: what is declared, the current values, and who is told
of changes.

Every write goes through `Settings.commit`: the value is checked, stored, and announced to
the setting's listeners in the order in which they were added.  A listener that refuses
keeps the later ones from being told, but the value is stored already.  A value is looked
up and stored at the scope that is effective for its setting; an editor that was unknown
gets its own copies of the shared values first.
-/
import ModalScript.Dict
import ModalScript.Editor.PerEditor
import ModalScript.Setting.Catalogue
import ModalScript.Setting.Number

namespace ModalScript

/-! ### Listeners -/

/-- A change of a setting, as it is announced. -/
structure SettingChange where
  name : String
  scope : SettingScope
  old : SettingValue
  new : SettingValue
  deriving DecidableEq

/-- Somebody who is told of changes. -/
inductive Listener where
  /-- Notes every change under its tag, and accepts or refuses it in view of all that had been
  noted before. -/
  | witness (tag : String)
      (answer : List (String × SettingChange) → SettingChange → Except SettingError Unit)
  /-- Keeps the keyword classifier up to date. -/
  | keywordTable

/-- Notes every change under its tag, and refuses the new value with the given text. -/
def Listener.observer (tag : String) (refused : Option String) : Listener :=
  .witness tag fun _ change =>
    if refused = some change.new.display then
      .error (.rejected change.name change.new.display "refused")
    else .ok ()

/-- What the listeners remember. -/
structure Audience where
  /-- The changes that witnesses were told of, with their tags, oldest first. -/
  notices : List (String × SettingChange)
  keywords : KeywordClassifier
  deriving DecidableEq, Inhabited

/-- The classifier for a value of the keyword setting. -/
def classifierOf (v : SettingValue) : Except SettingError KeywordClassifier :=
  match v with
  | .tokens ts =>
    match KeywordClassifier.ofTokens ts with
    | .ok k => .ok k
    | .error e => .error (.rejected keywordSetting v.display e.message)
  | _ => .error (.rejected keywordSetting v.display ("not a token list: " ++ v.display))

/-- Tells one listener of a change. -/
def Listener.hear (l : Listener) (change : SettingChange) (a : Audience) :
    Except SettingError Unit × Audience :=
  match l with
  | .witness tag answer =>
    (answer a.notices change, { a with notices := a.notices ++ [(tag, change)] })
  | .keywordTable =>
    match classifierOf change.new with
    | .ok k => (.ok (), { a with keywords := k })
    | .error e => (.error e, a)

/-- Tells listeners of a change, one after the other, until one refuses. -/
def announce (change : SettingChange) :
    List Listener → Audience → Except SettingError Unit × Audience
  | [], a => (.ok (), a)
  | l :: ls, a =>
    match l.hear change a with
    | (.ok (), a) => announce change ls a
    | refused => refused

/-! ### The store -/

/-- The settings of a session.  Values and listeners are filed under full names. -/
structure Settings where
  /-- In the order in which they were declared. -/
  declarations : List SettingDeclaration
  shared : Dict SettingValue
  /-- The own values of the editors that are known. -/
  own : PerEditor (Dict SettingValue)
  /-- In the order in which they were added. -/
  listeners : List (String × Listener)
  audience : Audience
  deriving Inhabited

/-- A change of the settings that may fail, keeping what it has done until then. -/
abbrev Configure (α : Type) : Type :=
  ExceptT SettingError (StateM Settings) α

namespace Settings

/-- Settings without any declaration. -/
def empty : Settings :=
  { declarations := [], shared := .empty, own := .empty, listeners := [], audience := ⟨[], ⟨[]⟩⟩ }

/-- The declaration with a name or abbreviation. -/
def declaration? (s : Settings) (name : String) : Except SettingError SettingDeclaration :=
  match s.declarations.find? (·.answersTo name) with
  | some d => .ok d
  | none => .error (.unknown name)

/-- Whether a text is a name or abbreviation already. -/
def isTaken (s : Settings) (name : String) : Bool :=
  s.declarations.any (·.answersTo name)

/-- The values an editor starts with: the shared ones of all settings kept per editor. -/
def initialValues (s : Settings) : Dict SettingValue :=
  (s.declarations.filter (·.kind = .perEditor)).foldl
    (fun vs d => vs.insert d.name ((s.shared.get? d.name).getD d.default)) .empty

/-- Makes an editor known and gives it its own values, unless it is known. -/
def register (s : Settings) (id : EditorId) : Settings :=
  match s.own.get? id with
  | some _ => s
  | none => { s with own := s.own.set id s.initialValues }

/-- Forgets an editor and its values. -/
def forget (s : Settings) (id : EditorId) : Settings :=
  { s with own := s.own.remove id }

/-- Adds a declaration.  Neither its name nor its abbreviation may be taken. -/
def declare (s : Settings) (d : SettingDeclaration) : Except SettingError Settings :=
  match (d.name :: d.abbreviation.toList).find? s.isTaken with
  | some name => .error (.alreadyDeclared name)
  | none =>
    .ok
      { s with
        declarations := s.declarations ++ [d]
        shared := s.shared.insert d.name d.default
        own :=
          match d.kind with
          | .shared => s.own
          | .perEditor => s.own.map (·.insert d.name d.default) }

/-- Declares settings one after the other, leaving out those whose names are taken. -/
def declareAll (s : Settings) (ds : List SettingDeclaration) : Settings :=
  ds.foldl (fun s d => match s.declare d with | .ok s => s | .error _ => s) s

/-- The settings that every session has from the start. -/
def initial : Settings :=
  empty.declareAll Catalogue.settings

/-- Adds a listener to a setting. -/
def listen (s : Settings) (name : String) (l : Listener) : Except SettingError Settings := do
  let d ← s.declaration? name
  return { s with listeners := s.listeners ++ [(d.name, l)] }

/-- The listeners of a setting, in the order in which they were added. -/
def listenersOf (s : Settings) (d : SettingDeclaration) : List Listener :=
  (s.listeners.filter (·.1 = d.name)).map (·.2)

/-! ### Reading -/

/-- The shared value of a setting. -/
def sharedValue (s : Settings) (d : SettingDeclaration) : SettingValue :=
  (s.shared.get? d.name).getD d.default

/-- The value of a setting at an effective scope. -/
def valueAt (s : Settings) (d : SettingDeclaration) : SettingScope → SettingValue
  | .shared => s.sharedValue d
  | .editor id => ((s.own.get? id).bind (·.get? d.name)).getD (s.sharedValue d)

/-- The current value of a setting. -/
def current (s : Settings) (scope : SettingScope) (d : SettingDeclaration) : SettingValue :=
  s.valueAt d (d.effectiveScope scope)

/-- The current value of the setting with a name. -/
def get (s : Settings) (scope : SettingScope) (name : String) :
    Except SettingError SettingValue :=
  (s.declaration? name).map (s.current scope)

/-- Whether the setting with a name is on: a flag that is set, or a number other than 0. -/
def isOn (s : Settings) (scope : SettingScope) (name : String) : Except SettingError Bool := do
  match ← s.get scope name with
  | .flag b => return b
  | .number n => return n != 0
  | v => throw (.wrongType name .flag v.type)

/-- Whether the setting with a name has its default value. -/
def isDefault (s : Settings) (scope : SettingScope) (name : String) :
    Except SettingError Bool := do
  let d ← s.declaration? name
  return s.current scope d == d.default

/-! ### Writing -/

/-- Stores a value at an effective scope. -/
def store (s : Settings) (d : SettingDeclaration) (scope : SettingScope) (v : SettingValue) :
    Settings :=
  match scope with
  | .shared => { s with shared := s.shared.insert d.name v }
  | .editor id =>
    let s := s.register id
    { s with own := s.own.set id (((s.own.get? id).getD .empty).insert d.name v) }

/-- Tells the listeners of a setting about a change. -/
def notify (s : Settings) (d : SettingDeclaration) (change : SettingChange) :
    Except SettingError Unit × Settings :=
  let (answer, audience) := announce change (s.listenersOf d) s.audience
  (answer, { s with audience })

/-- Checks a value, stores it, and tells the listeners.  Nothing is stored if the check
refuses the value. -/
def commit (d : SettingDeclaration) (scope : SettingScope) (v : SettingValue) :
    Configure Unit :=
  fun s =>
    match d.check.run v with
    | .error reason => (.error (.rejected d.name v.display reason), s)
    | .ok () =>
      let scope := d.effectiveScope scope
      let change := { name := d.name, scope, old := s.valueAt d scope, new := v }
      (s.store d scope v).notify d change

/-- The value that a text writes for a setting. -/
def parseText (d : SettingDeclaration) (text : String) : Except SettingError SettingValue :=
  match d.type with
  | .flag => .error (.invalid d.name text)
  | .number =>
    match SettingNumber.parse? text with
    | some n => .ok (.number n)
    | none => .error (.numberRequired d.name text)
  | .text => .ok (.text text)
  | .tokens =>
    match d.tokenizer.tokenize text with
    | some ts => .ok (.tokens ts)
    | none => .error (.invalid d.name text)

/-- Gives the setting with a name a value of its type. -/
def setValue (scope : SettingScope) (name : String) (v : SettingValue) : Configure Unit := do
  let d ← (← MonadState.get).declaration? name
  if v.type = d.type then commit d scope v
  else throw (.wrongType d.name d.type v.type)

/-- Gives the setting with a name the value that a text writes. -/
def setText (scope : SettingScope) (name text : String) : Configure Unit := do
  let d ← (← MonadState.get).declaration? name
  let v ← parseText d text
  commit d scope v

/-- Changes the flag with a name. -/
def changeFlag (scope : SettingScope) (name : String) (f : Bool → Bool) : Configure Unit := do
  let s ← MonadState.get
  let d ← s.declaration? name
  match s.current scope d with
  | .flag b => commit d scope (.flag (f b))
  | v => throw (.wrongType name .flag v.type)

/-- Turns the flag with a name on. -/
def turnOn (scope : SettingScope) (name : String) : Configure Unit :=
  changeFlag scope name fun _ => true

/-- Turns the flag with a name off. -/
def turnOff (scope : SettingScope) (name : String) : Configure Unit :=
  changeFlag scope name fun _ => false

/-- Turns the flag with a name over. -/
def toggle (scope : SettingScope) (name : String) : Configure Unit :=
  changeFlag scope name not

/-- Gives the setting with a name its default value. -/
def reset (scope : SettingScope) (name : String) : Configure Unit := do
  let d ← (← MonadState.get).declaration? name
  commit d scope d.default

end Settings

end ModalScript
