/-
Running scripts: the state, and computations on it.

The state is a session together with the editor that the script works on.  A computation
changes the state whatever its outcome is: a value, an error, or the end of the fuel that
bounds how long it may run.
-/
import ModalScript.Editor.Basic
import ModalScript.Script.Functions
import ModalScript.Setting.Script

namespace ModalScript

/-- A message to the user. -/
structure Message where
  text : String
  isError : Bool
  deriving DecidableEq, Inhabited

/-- All that is kept from one script to the next. -/
structure Session where
  heap : Heap
  vars : Variables
  functions : Functions
  settings : Settings
  /-- The messages so far, oldest first. -/
  messages : Array Message
  deriving Inhabited

namespace Session

/-- The session over given settings, which tells a keyword classifier of all changes. -/
def ofSettings (settings : Settings) : Except SettingError Session := do
  let classifier ← classifierOf (← settings.get .shared keywordSetting)
  let settings ← settings.listen keywordSetting .keywordTable
  return {
    heap := .empty
    vars := .initial
    functions := .empty
    settings := { settings with audience := { settings.audience with keywords := classifier } }
    messages := #[] }

/-- Whether a character belongs to words. -/
def isKeyword (s : Session) (c : Char) : Bool :=
  s.settings.audience.keywords.isKeyword c

/-- How many functions may run at once when the settings do not say. -/
def defaultCallDepth : Nat :=
  100

/-- How many functions may run at once. -/
def maxCallDepth (s : Session) : Nat :=
  match s.settings.get .shared "maxfuncdepth" with
  | .ok (.number n) => if n < 0 then defaultCallDepth else n.toInt.toNat
  | _ => defaultCallDepth

/-- Shows a text to the user. -/
def echo (s : Session) (text : String) : Session :=
  { s with messages := s.messages.push ⟨text, false⟩ }

/-- Shows an error to the user and keeps its text in `v:errmsg`. -/
def reportError (s : Session) (text : String) : Session :=
  { s with
    vars := s.vars.setBuiltin "errmsg" (.string text)
    messages := s.messages.push ⟨text, true⟩ }

/-- Shows a problem to the user, if there is one. -/
def report (s : Session) : Option Diagnostic → Session
  | some d => s.reportError d.message
  | none => s

/-- Makes an editor known. -/
def attach (s : Session) (id : EditorId) : Session :=
  { s with settings := s.settings.register id }

/-- Forgets an editor, its variables and its settings. -/
def detach (s : Session) (id : EditorId) : Session :=
  { s with settings := s.settings.forget id, vars := s.vars.forget id }

end Session

/-- What a script works on. -/
structure State where
  session : Session
  editor : Editor
  deriving Inhabited

/-! ### Computations -/

/-- How a computation ends. -/
inductive Outcome (α : Type) where
  | value (a : α)
  | failed (e : ExecError)
  /-- The computation was cut off. -/
  | outOfFuel

/-- A computation on the state. -/
def Interp (α : Type) : Type :=
  State → Outcome α × State

namespace Interp

variable {α β : Type}

/-- The computation that only has a value. -/
def ret (a : α) : Interp α :=
  fun s => (.value a, s)

/-- One computation after the other, unless the first one has no value. -/
def andThen (m : Interp α) (f : α → Interp β) : Interp β :=
  fun s =>
    match m s with
    | (.value a, s') => f a s'
    | (.failed e, s') => (.failed e, s')
    | (.outOfFuel, s') => (.outOfFuel, s')

instance : Monad Interp where
  pure := ret
  bind := andThen

/-- The computation that fails. -/
def fail (e : ExecError) : Interp α :=
  fun s => (.failed e, s)

/-- The computation that is cut off. -/
def exhausted : Interp α :=
  fun s => (.outOfFuel, s)

/-- Reads something from the state. -/
def read (f : State → α) : Interp α :=
  fun s => (.value (f s), s)

/-- Changes the session. -/
def changeSession (f : Session → Session) : Interp Unit :=
  fun s => (.value (), { s with session := f s.session })

/-- Changes the editor. -/
def changeEditor (f : Editor → Editor) : Interp Unit :=
  fun s => (.value (), { s with editor := f s.editor })

/-- A value, or an evaluation error. -/
def ofExcept (r : Except EvalError α) : Interp α :=
  match r with
  | .ok a => ret a
  | .error e => fail (.eval e)

/-- Reads something that may be an evaluation error from the state. -/
def readExcept (f : State → Except EvalError α) : Interp α :=
  fun s => ofExcept (f s) s

/-- A computation on the heap.  If it fails, the heap is as before. -/
def onHeap (m : Allocating α) : Interp α :=
  fun s =>
    match m s.session.heap with
    | .ok (a, heap) => (.value a, { s with session := { s.session with heap } })
    | .error e => (.failed (.eval e), s)

/-- A change of the settings. -/
def configure (m : Configure α) : Interp α :=
  fun s =>
    match m s.session.settings with
    | (.ok a, settings) => (.value a, { s with session := { s.session with settings } })
    | (.error e, settings) =>
      (.failed (.setting e), { s with session := { s.session with settings } })

/-- A change of the variables.  If it fails, they are as before. -/
def onVariables (f : Variables → EditorId → Except EvalError (α × Variables)) : Interp α :=
  fun s =>
    match f s.session.vars s.editor.id with
    | .ok (a, vars) => (.value a, { s with session := { s.session with vars } })
    | .error e => (.failed (.eval e), s)

/-- Gives a variable a value. -/
def store (v : VariableName) (x : Value) : Interp Unit :=
  onVariables fun vs id => (vs.store v x id).map fun vs => ((), vs)

/-- Gives the running function an argument. -/
def bindArgument (name : String) (x : Value) : Interp Unit :=
  changeSession fun s => { s with vars := s.vars.bindArgument name x }

/-- Runs a computation inside a new frame, which is gone afterwards whatever the outcome. -/
def inFrame (function : String) (captured : Option LocalsRef) (m : Interp α) : Interp α :=
  fun s =>
    let s := { s with
      session := { s.session with vars := s.session.vars.push function captured } }
    let (r, s) := m s
    (r, { s with session := { s.session with vars := s.session.vars.pop } })

end Interp

namespace State

/-- The line of the cursor, counted from 1. -/
def currentLine (s : State) : Nat :=
  s.editor.cursor.line + 1

/-- The value of a variable. -/
def lookup (s : State) (v : VariableName) : Option Value :=
  s.session.vars.get? v s.editor.id

end State

/-- The place that an access to a setting means for an editor. -/
def SettingAccess.scope (access : SettingAccess) (id : EditorId) : SettingScope :=
  match access with
  | .effective | .own => .editor id
  | .shared => .shared

/-! ### Calls -/

/-- What the caller of a function adds to its name and arguments. -/
structure CallSite where
  range : Option LineRange := none
  /-- The dictionary that the function is called on. -/
  dict : Option DictRef := none
  deriving Inhabited

/-- A way of calling functions. -/
abbrev Caller : Type :=
  String → List Value → CallSite → Interp Value

/-! ### Results of statements -/

/-- How a statement ends. -/
inductive Signal where
  | done
  | broken
  | continued
  | returned (v : Value)
  /-- The statement failed, and whatever contains it may go on. -/
  | failed (text : String)
  deriving DecidableEq, Inhabited

/-- Turns the errors that may be collected into a signal. -/
def Interp.collecting (m : Interp Signal) : Interp Signal :=
  fun s =>
    match m s with
    | (.failed e, s') => if e.collectable then (.value (.failed e.message), s') else (.failed e, s')
    | other => other

end ModalScript
