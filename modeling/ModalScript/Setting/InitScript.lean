/-
Init scripts: straight-line calls that configure the settings when a session starts.

All calls mean the shared values.  They run in order, and what a call has done stays done
when a later one is refused.  A query ends the script with its result.
-/
import ModalScript.Setting.Script

namespace ModalScript

/-! ### Calls -/

/-- One call of an init script. -/
inductive InitCall where
  | setFlag (name : String) (b : Bool)
  | setNumber (name : String) (n : Int64)
  | setText (name text : String)
  | edit (name operand : String) (edit : Edit)
  | reset (name : String)
  /-- Shows the value of a setting. -/
  | get (name : String)
  /-- Shows whether a setting is on. -/
  | isSet (name : String)
  /-- Shows the names of all settings. -/
  | list
  deriving DecidableEq

/-- What ends an init script early. -/
inductive InitError where
  /-- There is a file, but it cannot be read. -/
  | unreadable
  /-- The text is no script. -/
  | malformed
  | refused (error : SettingError)
  /-- The call on a line, counted from 1, showed a result. -/
  | shown (result : String) (line : Nat)
  deriving DecidableEq

/-- The text of whatever ended a running script. -/
def InitError.message? : InitError → Option String
  | .unreadable | .malformed => none
  | .refused error => some ("Config error: Runtime error: " ++ error.message)
  | .shown result line =>
    let result := if result = "" then "" else ": " ++ result
    some ("Config error: Runtime error" ++ result ++ " (line " ++ line.repr ++ ", position 1)")

/-! ### Results -/

/-- How a value is shown: flags are words here. -/
def SettingValue.initText : SettingValue → String
  | .flag b => if b then "true" else "false"
  | v => v.display

/-- A character of a name between double quotes.  Control characters are escaped. -/
def escapeInName (c : Char) : List Char :=
  if c = '"' then ['\\', '"']
  else if c = '\\' then ['\\', '\\']
  else if c = '\t' then ['\\', 't']
  else if c = '\n' then ['\\', 'n']
  else if c = '\r' then ['\\', 'r']
  else if c = '\x00' then ['\\', '0']
  else if c.toNat < 0x20 ∨ 0x7F ≤ c.toNat ∧ c.toNat < 0xA0 then
    '\\' :: 'u' :: '\x7b' :: Nat.toDigits 16 c.toNat ++ ['\x7d']
  else [c]

/-- A name between double quotes. -/
def quotedName (name : String) : List Char :=
  '"' :: name.toList.flatMap escapeInName ++ ['"']

/-- The list of all names. -/
def Settings.nameList (s : Settings) : String :=
  let names := s.declarations.map fun d => quotedName d.name
  String.ofList ('[' :: [',', ' '].intercalate names ++ [']'])

/-! ### Running -/

/-- The result that a call shows, or `none` for a call that shows nothing. -/
def InitCall.run : InitCall → Configure (Option String)
  | .setFlag name b => do
    Settings.setValue .shared name (.flag b)
    return none
  | .setNumber name n => do
    Settings.assign .empty .shared name (.integer n)
    return none
  | .setText name text => do
    Settings.setText .shared name text
    return none
  | .edit name operand e => do
    Settings.edit .shared name operand e
    return none
  | .reset name => do
    Settings.reset .shared name
    return none
  | .get name => do
    let v ← (← MonadState.get).get .shared name
    return some v.initText
  | .isSet name => do
    let b ← (← MonadState.get).isOn .shared name
    return some (if b then "true" else "false")
  | .list => do
    let s ← MonadState.get
    return some s.nameList

/-- Runs calls, the first of which stands on the given line. -/
def runInitCalls (line : Nat) : List InitCall → Settings → Except InitError Unit × Settings
  | [], s => (.ok (), s)
  | call :: calls, s =>
    match call.run s with
    | (.ok none, s) => runInitCalls (line + 1) calls s
    | (.ok (some result), s) => (.error (.shown result line), s)
    | (.error e, s) => (.error (.refused e), s)

/-- An init script as it is found. -/
inductive InitScript where
  /-- There is none. -/
  | absent
  /-- There should be a file, but it cannot be read. -/
  | unreadable
  /-- The text is no script. -/
  | malformed
  | script (calls : List InitCall)
  deriving DecidableEq

/-- Runs an init script; none at all is fine. -/
def InitScript.run : InitScript → Settings → Except InitError Unit × Settings
  | .absent, s => (.ok (), s)
  | .unreadable, s => (.error .unreadable, s)
  | .malformed, s => (.error .malformed, s)
  | .script calls, s => runInitCalls 1 calls s

end ModalScript
