/-
What ends by itself and leaves functions and frames alone.

Most of the interpreter calls nothing and goes round no loop.  Such a computation is `Quiet`:
whatever its outcome is, it has not been cut off, and afterwards the same functions are
registered and as many functions are running.  This is all that a bound on the length of runs
has to know of it.
-/
import ModalScript.Proofs.Script.Congruence
import ModalScript.Proofs.Script.Parts
import ModalScript.Proofs.Script.Variables

namespace ModalScript

theorem Outcome.value_ne_outOfFuel {α : Type} (a : α) : Outcome.value a ≠ .outOfFuel := by
  intro h
  cases h

theorem Outcome.failed_ne_outOfFuel {α : Type} (e : ExecError) :
    (.failed e : Outcome α) ≠ .outOfFuel := by
  intro h
  cases h

namespace Interp

variable {α β : Type} {m : Interp α}

/-- The computation is not cut off, and keeps the registered functions and the depth of
calls. -/
def Quiet (m : Interp α) : Prop :=
  ∀ s, (m s).1 ≠ .outOfFuel ∧ (m s).2.session.functions = s.session.functions ∧
    (m s).2.session.vars.depth = s.session.vars.depth

/-! ### Computations that only look at the state -/

theorem quiet_pure (a : α) : (pure a : Interp α).Quiet :=
  fun _ => ⟨Outcome.value_ne_outOfFuel _, rfl, rfl⟩

theorem quiet_fail (e : ExecError) : (fail e : Interp α).Quiet :=
  fun _ => ⟨Outcome.failed_ne_outOfFuel _, rfl, rfl⟩

theorem quiet_read (f : State → α) : (read f).Quiet :=
  fun _ => ⟨Outcome.value_ne_outOfFuel _, rfl, rfl⟩

/-- A result that is there already is given, or its error is raised. -/
theorem quiet_ofExcept (r : Except EvalError α) : (ofExcept r).Quiet := by
  cases r with
  | ok a => exact quiet_pure a
  | error e => exact quiet_fail _

theorem quiet_readExcept (f : State → Except EvalError α) : (readExcept f).Quiet :=
  fun s => quiet_ofExcept (f s) s

/-! ### Computations one after the other -/

/-- Two computations that end by themselves do so one after the other. -/
theorem Quiet.bind {f : α → Interp β} (hm : m.Quiet) (hf : ∀ a, (f a).Quiet) :
    (m >>= f).Quiet := by
  intro s
  obtain ⟨hend, hfunctions, hdepth⟩ := hm s
  have hrun : (m >>= f) s = m.andThen f s := rfl
  rw [hrun, andThen]
  rcases hr : m s with ⟨r, s'⟩
  rw [hr] at hend hfunctions hdepth
  -- the second computation starts only if the first one has a value
  cases r with
  | value a =>
    obtain ⟨hend', hfunctions', hdepth'⟩ := hf a s'
    exact ⟨hend', hfunctions'.trans hfunctions, hdepth'.trans hdepth⟩
  | failed e => exact ⟨Outcome.failed_ne_outOfFuel _, hfunctions, hdepth⟩
  | outOfFuel => exact absurd rfl hend

/-- So do as many computations as a list has elements. -/
theorem Quiet.forM {as : List α} {f : α → Interp Unit} (hf : ∀ a, (f a).Quiet) :
    (as.forM f).Quiet := by
  induction as with
  | nil => exact quiet_pure _
  | cons a as ih => exact (hf a).bind fun _ => ih

/-! ### Computations on one part of the state -/

/-- The heap holds neither functions nor frames. -/
theorem quiet_onHeap (m : Allocating α) : (onHeap m).Quiet := by
  intro s
  unfold onHeap
  rcases m s.session.heap with e | ⟨a, heap⟩
  · exact ⟨Outcome.failed_ne_outOfFuel _, rfl, rfl⟩
  · exact ⟨Outcome.value_ne_outOfFuel _, rfl, rfl⟩

/-- Changing settings ends by itself, as listeners run no scripts. -/
theorem quiet_configure (m : Configure α) : (configure m).Quiet := by
  intro s
  unfold configure
  rcases m s.session.settings with ⟨r, settings⟩
  cases r with
  | ok a => exact ⟨Outcome.value_ne_outOfFuel _, rfl, rfl⟩
  | error e => exact ⟨Outcome.failed_ne_outOfFuel _, rfl, rfl⟩

/-- A change of the session is quiet if it keeps functions and frames. -/
theorem quiet_changeSession {f : Session → Session}
    (hfunctions : ∀ s, (f s).functions = s.functions)
    (hdepth : ∀ s, (f s).vars.depth = s.vars.depth) : (changeSession f).Quiet :=
  fun s => ⟨Outcome.value_ne_outOfFuel _, hfunctions s.session, hdepth s.session⟩

/-- A change of variables is quiet if it keeps the number of frames. -/
theorem quiet_onVariables {f : Variables → EditorId → Except EvalError (α × Variables)}
    (hf : ∀ vs id a vs', f vs id = .ok (a, vs') → vs'.depth = vs.depth) :
    (onVariables f).Quiet := by
  intro s
  unfold onVariables
  rcases h : f s.session.vars s.editor.id with e | ⟨a, vars⟩
  · exact ⟨Outcome.failed_ne_outOfFuel _, rfl, rfl⟩
  · exact ⟨Outcome.value_ne_outOfFuel _, rfl, hf _ _ _ _ h⟩

/-- Storing a variable keeps the number of frames. -/
theorem quiet_store (v : VariableName) (x : Value) : (store v x).Quiet := by
  refine quiet_onVariables fun vs id a vs' h => ?_
  cases hstore : vs.store v x id with
  | error e =>
    rw [hstore] at h
    cases h
  | ok vars =>
    rw [hstore] at h
    cases h
    exact congrArg List.length (Variables.localChange_store hstore).1

theorem quiet_remove (v : VariableName) : (onVariables fun vs id => vs.remove v id).Quiet :=
  quiet_onVariables fun _ _ _ _ h => congrArg List.length (Variables.localChange_remove h).1

theorem quiet_bindArgument (name : String) (x : Value) : (Interp.bindArgument name x).Quiet := by
  refine quiet_changeSession (fun _ => rfl) fun s => ?_
  -- an argument is put into the innermost frame
  show (s.vars.frames.modifyHead (Frame.bind name x)).length = s.vars.frames.length
  exact List.length_modifyHead

end Interp

open Interp

/-! ### Expressions and built-in functions -/

/-- Quiet computations are closed under what expressions and built-in functions are made of. -/
theorem Interp.congruence_quiet : Congruence fun m _ => m.Quiet where
  value := quiet_pure
  failure e := quiet_fail (.eval e)
  reading := quiet_readExcept
  growing _ := quiet_onHeap _
  sequence := Quiet.bind

namespace Builtin

/-- Only `call` makes calls. -/
theorem run_eq_of_ne {b : Builtin} (hb : b ≠ .call) (call call' : Caller) (args : List Value)
    (site : CallSite) : b.run call args site = b.run call' args site := by
  cases b with
  | call => exact absurd rfl hb
  | _ => rfl

/-- Every built-in function but `call` ends by itself. -/
theorem quiet_run {b : Builtin} (hb : b ≠ .call) (call : Caller) (args : List Value)
    (site : CallSite) : (b.run call args site).Quiet :=
  @Congruence.run _ call call congruence_quiet b (fun hcall => absurd hcall hb)
    (fun _ _ _ => quiet_onHeap _) args site

end Builtin

/-! ### Commands -/

namespace Command

/-- The new value of an assignment is found quietly if the old one is. -/
theorem quiet_combine (op : LetOperator) {old : Interp Value} (new : Value) (hold : old.Quiet) :
    (combine op old new).Quiet :=
  @Congruence.combine _ congruence_quiet op old old new hold

/-- Assigning an element changes the heap only. -/
theorem quiet_assignElement (op : LetOperator) (container key new : Value) :
    (assignElement op container key new).Quiet := by
  have hvalue : (combine op (elementOf container key) new).Quiet :=
    quiet_combine op new (quiet_readExcept _)
  unfold assignElement
  split
  · -- an element of a list, at a place that has been found
    exact (quiet_ofExcept _).bind fun i => (quiet_readExcept _).bind fun slot =>
      hvalue.bind fun v => quiet_changeSession (fun _ => rfl) fun _ => rfl
  · -- an entry of a dictionary
    exact (quiet_ofExcept _).bind fun name =>
      hvalue.bind fun v => quiet_changeSession (fun _ => rfl) fun _ => rfl
  · exact quiet_fail _

/-- Messages are all that showing texts adds. -/
theorem foldl_echo_eq (texts : List String) (s : Session) :
    (texts.foldl Session.echo s).functions = s.functions ∧
      (texts.foldl Session.echo s).vars = s.vars := by
  induction texts generalizing s with
  | nil => exact ⟨rfl, rfl⟩
  | cons text texts ih => exact ih (s.echo text)

theorem quiet_printLines (line : CommandLine) : (printLines line).Quiet := by
  intro s
  obtain ⟨hfunctions, hvars⟩ := foldl_echo_eq
    ((List.range' (targetRange s line).first (targetRange s line).length).map fun n =>
      (s.editor.buffer.line? (n - 1)).getD "") s.session
  exact ⟨Outcome.value_ne_outOfFuel _, hfunctions, congrArg Variables.depth hvars⟩

theorem quiet_deleteLines (line : CommandLine) : (deleteLines line).Quiet := by
  intro s
  unfold deleteLines
  split
  · exact ⟨Outcome.failed_ne_outOfFuel _, rfl, rfl⟩
  · exact ⟨Outcome.value_ne_outOfFuel _, rfl, rfl⟩

/-- A settings command changes settings and shows some of them. -/
theorem quiet_changeSettings (kind : SetKind) (line : CommandLine) :
    (changeSettings kind line).Quiet := by
  intro s
  rcases hrun : SetRun.run kind s.editor.id line.argument ⟨s.session.settings, []⟩ with ⟨r, p⟩
  obtain ⟨hfunctions, hvars⟩ := foldl_echo_eq p.shown { s.session with settings := p.settings }
  simp only [changeSettings, hrun]
  refine ⟨?_, hfunctions, congrArg Variables.depth hvars⟩
  cases r with
  | ok => exact Outcome.value_ne_outOfFuel _
  | error e => exact Outcome.failed_ne_outOfFuel _

/-- Removing variables one after the other keeps the number of frames. -/
theorem quiet_removeVariables (line : CommandLine) : (removeVariables line).Quiet := by
  refine .forM fun name => (quiet_remove _).bind fun found => ?_
  split
  · exact quiet_pure _
  · exact quiet_fail _

end Command

/-! ### Invocations -/

/-- Reporting a problem adds a message at most. -/
theorem quiet_reportLast (ds : Diagnostics) : (reportLast ds).Quiet := by
  unfold reportLast
  cases ds.last with
  | none => exact quiet_changeSession (fun _ => rfl) fun _ => rfl
  | some d => exact quiet_changeSession (fun _ => rfl) fun _ => rfl

end ModalScript
