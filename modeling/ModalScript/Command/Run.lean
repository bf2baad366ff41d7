/-
Running commands.

A command is checked against its descriptor first, so that a refused one has done nothing.
Expressions are evaluated with the given `Caller`.
-/
import ModalScript.Command.Descriptor
import ModalScript.Command.Set
import ModalScript.Script.Evaluate

namespace ModalScript

namespace Command

/-! ### Assignment -/

/-- The value that an assignment gives: the new one, or the old one combined with it. -/
def combine (op : LetOperator) (old : Interp Value) (new : Value) : Interp Value :=
  match op.binary? with
  | none => pure new
  | some op => do
    let v ← old
    .onHeap (Value.binary op v new)

/-- The old value of an element that is assigned. -/
def elementOf (container key : Value) : Interp Value :=
  .readExcept fun s => Value.index s.session.heap container key

/-- Gives an element of a container a value. -/
def assignElement (op : LetOperator) (container key new : Value) : Interp Unit :=
  match container with
  | .list r => do
    let i ← .ofExcept key.toNumber
    let slot ← .readExcept fun s =>
      match Value.resolveIndex i (s.session.heap.items r).length with
      | some slot => .ok slot
      | none => .error (.indexOutOfRange i)
    let v ← combine op (elementOf container key) new
    .changeSession fun s =>
      { s with heap := s.heap.setItems r ((s.heap.items r).set slot v) }
  | .dict r => do
    let name ← .ofExcept key.toText
    let v ← combine op (elementOf container key) new
    .changeSession fun s =>
      { s with heap := s.heap.setTable r ((s.heap.table r).insert name v) }
  | other => .fail (.eval (other.mismatch .list))

/-- Gives the target of an assignment a value. -/
def assignTo (call : Caller) (op : LetOperator) (new : Value) : LetTarget → Interp Unit
  | .variable v => do
    let x ← combine op (.readExcept fun s => s.session.vars.get v s.editor.id) new
    .store v x
  | .index base place => do
    let container ← base.evaluate call
    let key ← place.evaluate call
    assignElement op container key new
  | .setting access name => do
    let x ← combine op (.readExcept fun s => Expr.settingValue s access name) new
    let scope ← .read fun s => access.scope s.editor.id
    let heap ← .read fun s => s.session.heap
    .configure (Settings.assign heap scope name x)

/-! ### Messages -/

/-- The texts of expressions, each taken as soon as the expression has been evaluated. -/
def echoParts (call : Caller) : List Expr → Interp (List String)
  | [] => pure []
  | e :: es => do
    let v ← e.evaluate call
    let part ← .read fun s => s.session.heap.echo v
    let parts ← echoParts call es
    return part :: parts

/-- Shows values as a message, or fails with their text. -/
def echoValues (call : Caller) (isError : Bool) (es : List Expr) : Interp Unit := do
  let parts ← echoParts call es
  let text := String.ofList (separated " " (parts.map String.toList))
  if isError then .fail (.statement text) else .changeSession (·.echo text)

/-! ### Lines -/

/-- The range of a command line, which is the line of the cursor if none is given. -/
def targetRange (s : State) (line : CommandLine) : LineRange :=
  line.range.getD (.single s.currentLine)

/-- Shows lines and puts the cursor on the last one. -/
def printLines (line : CommandLine) : Interp Unit := fun s =>
  let r := targetRange s line
  let shown := (List.range' r.first r.length).map fun n =>
    (s.editor.buffer.line? (n - 1)).getD ""
  (.value (),
    { session := shown.foldl Session.echo s.session, editor := s.editor.goTo (r.last - 1) })

/-- The number of lines that is given as an argument. -/
def lineCount? (line : CommandLine) : Except ExecError (Option Nat) :=
  let digits := match line.trimmed with
    | '+' :: rest => rest
    | cs => cs
  if line.trimmed = [] then .ok none
  else
    match (Decimal.natural? 10 digits).filter fun n => 0 < n && n < 0x10000000000000000 with
    | some n => .ok (some n)
    | none =>
      .error (.statement ("E488: Trailing characters: " ++ String.ofList line.trimmed))

/-- The lines to be deleted: the range, or as many as the count says from its last line on. -/
def deletedRange (s : State) (line : CommandLine) (count? : Option Nat) : LineRange :=
  let r := targetRange s line
  match count? with
  | some count => ⟨r.last, min (r.last + (count - 1)) s.editor.buffer.lineCount⟩
  | none => r

/-- Deletes lines. -/
def deleteLines (line : CommandLine) : Interp Unit := fun s =>
  match lineCount? line with
  | .error e => (.failed e, s)
  | .ok count? =>
    let r := deletedRange s line count?
    (.value (), { s with editor := s.editor.deleteLines (r.first - 1) (r.last - 1) })

/-! ### Functions, settings and variables -/

/-- Removes the function with a name. -/
def deleteFunction (line : CommandLine) : Interp Unit := fun s =>
  let name := String.ofList line.trimmed
  let (found, functions) := s.session.functions.remove name
  if found then (.value (), { s with session := { s.session with functions } })
  else if line.bang then (.value (), s)
  else (.failed (.statement ("E130: Unknown function: " ++ name)), s)

/-- Applies the items of a settings command, and shows what they have to show. -/
def changeSettings (kind : SetKind) (line : CommandLine) : Interp Unit := fun s =>
  let (r, p) := SetRun.run kind s.editor.id line.argument ⟨s.session.settings, []⟩
  let session := p.shown.foldl Session.echo { s.session with settings := p.settings }
  ((match r with | .ok () => .value () | .error e => .failed e), { s with session })

/-- Removes a variable. -/
def removeVariable (bang : Bool) (v : VariableName) : Interp Unit := do
  let found ← .onVariables fun vs id => vs.remove v id
  if found || bang then pure ()
  else .fail (.statement ("E108: No such variable: \"" ++ v.text ++ "\""))

/-- Removes variables one after the other. -/
def removeVariables (line : CommandLine) : Interp Unit :=
  (Text.words line.argument.toList).forM fun name =>
    removeVariable line.bang (.parse (String.ofList name))

/-! ### All commands -/

/-- What a command does once its line has been checked. -/
def process (call : Caller) : Command → Interp Unit
  | .assign target op value => do
    let new ← value.evaluate call
    assignTo call op new target
  | .echo isError values => echoValues call isError values
  | .call range name args => do
    let vs ← Expr.evaluateAll call args
    let _ ← call name vs { range }
  | .text .delete line => deleteLines line
  | .text .deleteFunction line => deleteFunction line
  | .text .print line => printLines line
  | .text (.set kind) line => changeSettings kind line
  | .text .unlet line => removeVariables line

/-- Checks a command and runs it. -/
def execute (call : Caller) (c : Command) : Interp Unit := fun s =>
  match validate c.name c.descriptor c.line s.editor.buffer.lineCount with
  | .ok () => c.process call s
  | .error e => (.failed e, s)

end Command

end ModalScript
