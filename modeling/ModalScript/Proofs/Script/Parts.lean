/-
The parts of the interpreter that call no function.

Each is confined to the layer it belongs to: the combination of values to expressions, and
commands on lines, settings and variables as well as definitions to statements.
-/
import ModalScript.Proofs.Script.Effect

namespace ModalScript

open Interp

/-! ### Commands -/

namespace Command

/-- The new value of an assignment may be a new list, which changes the heap. -/
theorem confined_combine (op : LetOperator) {old : Interp Value} (new : Value)
    (hold : old.Confined .expression) : (combine op old new).Confined .expression := by
  unfold combine
  split
  · exact confined_pure _
  · exact hold.bind fun v => confined_onHeap _

/-- The element of a container lies in the heap. -/
theorem confined_assignElement (op : LetOperator) (container key new : Value) :
    (assignElement op container key new).Confined .expression := by
  have hvalue : (combine op (elementOf container key) new).Confined .expression :=
    confined_combine op new (confined_readExcept _)
  unfold assignElement
  split
  · -- the place is looked for before the value is found, and then the list is written
    exact (confined_ofExcept _).bind fun i => (confined_readExcept _).bind fun slot =>
      hvalue.bind fun v s => .heap s _
  · exact (confined_ofExcept _).bind fun name => hvalue.bind fun v s => .heap s _
  · exact confined_fail _

/-- Texts are shown one after the other. -/
theorem effect_foldl_echo (texts : List String) (s : State) :
    Effect .statement s { s with session := texts.foldl Session.echo s.session } := by
  induction texts generalizing s with
  | nil => exact .refl _ s
  | cons text texts ih => exact .trans (.echo s text) (ih _)

/-- Printing lines also puts the cursor on the last one. -/
theorem confined_printLines (line : CommandLine) : (printLines line).Confined .statement := by
  intro s
  exact .trans (effect_foldl_echo _ s) (.goTo _ _)

theorem confined_deleteLines (line : CommandLine) : (deleteLines line).Confined .statement := by
  intro s
  unfold deleteLines
  split
  · exact .refl _ s
  · exact .deleteLines s _ _

/-- A function is deleted only if one of the name is registered. -/
theorem confined_deleteFunction (line : CommandLine) :
    (deleteFunction line).Confined .statement := by
  intro s
  simp only [deleteFunction]
  -- what is not registered stays so, whether this is an error or not
  split
  · exact .deleteFunction s _
  · split
    · exact .refl _ s
    · exact .refl _ s

/-- A settings command writes settings and then shows texts. -/
theorem confined_changeSettings (kind : SetKind) (line : CommandLine) :
    (changeSettings kind line).Confined .statement := by
  intro s
  have hrun : s.session.settings.Rewritten s.editor.id
      (SetRun.run kind s.editor.id line.argument ⟨s.session.settings, []⟩).2.settings :=
    SetRun.writes_run kind line.argument ⟨s.session.settings, []⟩
  exact .trans (.settings hrun) (effect_foldl_echo _ _)

/-- Variables are removed one after the other, and the first one that is missing ends this. -/
theorem confined_removeVariables (line : CommandLine) :
    (removeVariables line).Confined .statement := by
  refine .forM fun name _ => (confined_remove _).bind fun found => ?_
  split
  · exact confined_pure _
  · exact confined_fail _

end Command

/-! ### Statements -/

/-- A function is registered only if nothing speaks against it. -/
theorem confined_defineFunction (signature : Signature) (body : List Statement) :
    (defineFunction signature body).Confined .statement := by
  intro s
  unfold defineFunction
  cases hcaptured : capturedBy s.session signature with
  | error e => exact .refl _ s
  | ok captured =>
    cases hdefine : s.session.functions.define ⟨⟨signature, body⟩, captured⟩ with
    | error e =>
      simp only [bind, Except.bind, hdefine]
      exact .refl _ s
    | ok functions =>
      simp only [bind, Except.bind, hdefine]
      exact .define body hcaptured hdefine

/-! ### Invocations -/

/-- The cursor may be put on the line of a run. -/
theorem effect_follow (s : State) (moves : Bool) (line : Nat) :
    Effect .statement s (s.follow moves line) := by
  unfold State.follow
  split
  · exact .goTo s _
  · exact .refl _ s

theorem effect_report (s : State) (problem? : Option Diagnostic) :
    Effect .statement s { s with session := s.session.report problem? } := by
  cases problem? with
  | some d => exact .reportError s _
  | none => exact .refl _ s

/-- One message is added at most. -/
theorem confined_reportLast (ds : Diagnostics) : (reportLast ds).Confined .statement :=
  fun s => effect_report s ds.last

/-! ### Calls -/

/-- Only a registered function is called as one. -/
theorem Callee.get?_of_ofName {s : State} {name : String} {f : DefinedFunction}
    (h : Callee.ofName s name = .user f) : s.session.functions.get? name = some f := by
  unfold Callee.ofName at h
  split at h
  · next hget =>
    cases h
    exact hget
  · cases h
  · split at h
    · split at h
      · cases h
      · cases h
    · cases h

/-- A call that is not refused has room for its frame. -/
theorem depth_lt_of_checkCall {s : State} {signature : Signature} {args : List Value}
    {site : CallSite} (h : checkCall s signature args site = .ok ()) :
    s.session.vars.depth < s.session.maxCallDepth := by
  -- the depth is checked behind the number of arguments and the dictionary
  unfold checkCall at h
  split at h
  · cases h
  · split at h
    · cases h
    · split at h
      · cases h
      · next hdepth => exact Nat.lt_of_not_le hdepth

/-- A refused call has done nothing. -/
theorem invoke_of_refused {f : DefinedFunction} {args : List Value} {site : CallSite} {s : State}
    {e : EvalError} (hcheck : checkCall s f.function.signature args site = .error e)
    (call : Caller) (fuel : Nat) : invoke call fuel f args site s = (.failed (.eval e), s) := by
  show (Interp.andThen _ _) s = _
  simp only [Interp.andThen, readExcept, hcheck]
  rfl

/-- A call that is not refused runs in a frame of its own. -/
theorem invoke_of_accepted {f : DefinedFunction} {args : List Value} {site : CallSite} {s : State}
    (hcheck : checkCall s f.function.signature args site = .ok ()) (call : Caller) (fuel : Nat) :
    invoke call fuel f args site s =
      inFrame f.function.signature.qualifiedName f.captured
        (runInvocation call fuel f.function args site.dict
          (LineSpan.ofCall f.function.signature.flags site.range s.currentLine)) s := by
  show (Interp.andThen _ _) s = _
  simp only [Interp.andThen, readExcept, hcheck]
  rfl

end ModalScript
