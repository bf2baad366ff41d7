/-
Which errors get out.

Four kinds of errors can interrupt a statement, and all of them can stand wherever an error
can.  Two kinds never leave the block or the body whose statement raised them: refused
settings and failures of the statement itself.  `Interp.Passing` says of a computation that
its errors are of the other kinds, evaluation errors and the request to finish.  It holds of
`collecting`, whatever is collected, and so of blocks and bodies, whatever their statements
and the calls in them do; it holds of expressions as soon as it holds of calls.

Main result: `errors_run`.
-/
import ModalScript.Proofs.Script.Preparing

namespace ModalScript

/-- An error that may leave blocks, bodies and calls. -/
def ExecError.Passes (e : ExecError) : Prop :=
  (∃ error, e = .eval error) ∨ e = .finish

/-- What is not collected may get out. -/
theorem ExecError.passes_of_not_collectable {e : ExecError} (h : ¬ e.collectable = true) :
    e.Passes := by
  cases e with
  | eval error => exact Or.inl ⟨error, rfl⟩
  | finish => exact Or.inr rfl
  | setting error => exact absurd rfl h
  | statement text => exact absurd rfl h

namespace Interp

variable {α β : Type} {m : Interp α}

/-- Only such errors come out of the computation. -/
def Passing (m : Interp α) : Prop :=
  ∀ s s' e, m s = (.failed e, s') → e.Passes

theorem passing_pure (a : α) : (pure a : Interp α).Passing :=
  fun _ _ _ h => nomatch h

/-- An evaluation error is one of those that get out. -/
theorem passing_fail (e : EvalError) : (fail (.eval e) : Interp α).Passing := by
  intro s s' e' h
  cases h
  exact Or.inl ⟨e, rfl⟩

theorem passing_read (f : State → α) : (read f).Passing :=
  fun _ _ _ h => nomatch h

theorem passing_ofExcept (r : Except EvalError α) : (ofExcept r).Passing := by
  cases r with
  | ok a => exact passing_pure a
  | error e => exact passing_fail e

theorem passing_readExcept (f : State → Except EvalError α) : (readExcept f).Passing :=
  fun s => passing_ofExcept (f s) s

theorem passing_changeSession (f : Session → Session) : (changeSession f).Passing :=
  fun _ _ _ h => nomatch h

/-- A computation on the heap fails with evaluation errors only. -/
theorem passing_onHeap (m : Allocating α) : (onHeap m).Passing := by
  intro s s' e h
  unfold onHeap at h
  split at h
  · cases h
  · cases h
    exact Or.inl ⟨_, rfl⟩

/-- So does one on the variables. -/
theorem passing_onVariables (f : Variables → EditorId → Except EvalError (α × Variables)) :
    (onVariables f).Passing := by
  intro s s' e h
  unfold onVariables at h
  split at h
  · cases h
  · cases h
    exact Or.inl ⟨_, rfl⟩

/-- One of two computations raises the error. -/
theorem Passing.bind {f : α → Interp β} (hm : m.Passing) (hf : ∀ a, (f a).Passing) :
    (m >>= f).Passing := by
  intro s s' e h
  replace h : m.andThen f s = (.failed e, s') := h
  unfold andThen at h
  rcases hr : m s with ⟨r, s₁⟩
  rw [hr] at h
  -- the second one has raised it if the first one has a value
  cases r with
  | value a => exact hf a s₁ s' e h
  | failed e₁ =>
    cases h
    exact hm s _ e hr
  | outOfFuel => cases h

/-- Evaluation raises only evaluation errors itself. -/
theorem congruence_passing : Congruence fun m _ => m.Passing where
  value := passing_pure
  failure := passing_fail
  reading := passing_readExcept
  growing _ := passing_onHeap _
  sequence := Passing.bind

/-- What is collected does not get out. -/
theorem passing_collecting (m : Interp Signal) : m.collecting.Passing := by
  intro s s' e h
  unfold Interp.collecting at h
  rcases hr : m s with ⟨r, s₁⟩
  rw [hr] at h
  cases r with
  | failed e₁ =>
    simp only at h
    -- a collected error has become a signal
    split at h
    · cases h
    · next hcollect =>
      cases h
      exact ExecError.passes_of_not_collectable hcollect
  | value signal => cases h
  | outOfFuel => cases h

/-- A frame changes nothing about errors. -/
theorem Passing.inFrame (hm : m.Passing) (function : String) (captured : Option LocalsRef) :
    (inFrame function captured m).Passing := by
  intro s s' e h
  -- the frame is pushed and popped round the computation, and its outcome is the same
  have houtcome : (m _).1 = .failed e := congrArg Prod.fst h
  exact hm _ _ e (Prod.ext houtcome rfl)

end Interp

open Interp

/-! ### Blocks and bodies -/

/-- Whatever its statements and their calls do, only evaluation errors and the request to
finish come out of a block. -/
theorem Statement.passing_executeBlock (call : Caller) (fuel : Nat) (sts : List Statement) :
    (executeBlock call fuel sts).Passing := by
  induction sts with
  | nil =>
    rw [executeBlock]
    exact passing_pure _
  | cons st sts ih =>
    rw [executeBlock]
    refine (passing_collecting _).bind fun signal => ?_
    cases signal with
    | done => exact ih
    | _ => exact passing_pure _

/-- Errors that interrupt a body have not been collected. -/
theorem passes_of_runBody (call : Caller) (fuel : Nat) (policy : BodyPolicy)
    {body : List Statement} {ds ds' : Diagnostics} {s s' : State} {e : ExecError}
    (h : runBody call fuel policy body ds s = ((.failed e, ds'), s')) : e.Passes := by
  induction body generalizing ds s with
  | nil => cases h
  | cons st sts ih =>
    unfold runBody at h
    rcases hr : (st.execute call fuel).collecting s with ⟨r, s₁⟩
    rw [hr] at h
    cases r with
    | failed e₁ =>
      cases h
      exact passing_collecting _ s s' e hr
    | outOfFuel => cases h
    | value signal =>
      cases signal with
      | done => exact ih h
      | returned v => cases h
      | _ =>
        -- a problem, which is no error of the body
        cases policy with
        | abort => cases h
        | resume => exact ih h

/-- The runs for the lines of a call let no other errors out. -/
theorem passing_runLines (call : Caller) (fuel : Nat) (policy : BodyPolicy) (moves : Bool)
    (body : List Statement) (count line : Nat) (returned : Option Value) (ds : Diagnostics) :
    (runLines call fuel policy moves body count line returned ds).Passing := by
  induction count generalizing line returned ds with
  | zero => exact fun _ _ _ h => nomatch h
  | succ count ih =>
    intro s s' e h
    unfold runLines at h
    rcases hr : runBody call fuel policy body ds (s.follow moves line) with ⟨⟨r, ds'⟩, s₁⟩
    rw [hr] at h
    cases r with
    | value v => exact ih _ _ _ s₁ s' e h
    | failed e₁ =>
      cases h
      exact passes_of_runBody call fuel policy hr
    | outOfFuel => cases h

/-- A block ends with a signal where a statement of it fails with an error of its own. -/
theorem Statement.executeBlock_of_collectable {call : Caller} {fuel : Nat} {st : Statement}
    {s s' : State} {e : ExecError} (h : st.execute call fuel s = (.failed e, s'))
    (he : e.collectable = true) (sts : List Statement) :
    executeBlock call fuel (st :: sts) s = (.value (.failed e.message), s') := by
  have hcollect : (st.execute call fuel).collecting s = (.value (.failed e.message), s') := by
    simp only [Interp.collecting, h, he, if_true]
  rw [executeBlock]
  show Interp.andThen _ _ s = _
  simp only [Interp.andThen, hcollect]
  rfl

/-- A body notes such an error, and goes on if it is to. -/
theorem runBody_of_collectable {call : Caller} {fuel : Nat} {st : Statement} {s s' : State}
    {e : ExecError} (h : st.execute call fuel s = (.failed e, s')) (he : e.collectable = true)
    (policy : BodyPolicy) (sts : List Statement) (ds : Diagnostics) :
    runBody call fuel policy (st :: sts) ds s =
      match policy with
      | .abort => ((.value none, ds.add (.failure e.message)), s')
      | .resume => runBody call fuel .resume sts (ds.add (.failure e.message)) s' := by
  have hcollect : (st.execute call fuel).collecting s = (.value (.failed e.message), s') := by
    simp only [Interp.collecting, h, he, if_true]
  rw [runBody, hcollect]
  cases policy <;> rfl

/-! ### Calls -/

theorem passing_bindArgument (name : String) (x : Value) :
    (Interp.bindArgument name x).Passing :=
  passing_changeSession _

/-- Only such errors come out of calls. -/
def Caller.Passing (call : Caller) : Prop :=
  call.Related (fun m _ => m.Passing) call

section Calls

variable {call : Caller}

theorem preparing_passing : Preparing fun m _ => m.Passing where
  toCongruence := congruence_passing
  binding := passing_bindArgument
  storing _ _ := passing_onVariables _

/-- The defaults of an invocation raise errors of expressions, and its body others of these
kinds. -/
theorem passing_runInvocation (hcall : call.Passing) (fuel : Nat) (f : Function)
    (args : List Value) (dict : Option DictRef) (span : LineSpan) :
    (runInvocation call fuel f args dict span).Passing := by
  rw [runInvocation_eq]
  exact (preparing_passing.prepare hcall f args dict span.range).bind fun _ =>
    (passing_runLines call fuel _ _ _ _ _ _ _).bind fun r =>
      (passing_changeSession _).bind fun _ => passing_pure _

theorem passing_invoke (hcall : call.Passing) (fuel : Nat) (f : DefinedFunction)
    (args : List Value) (site : CallSite) : (invoke call fuel f args site).Passing :=
  (passing_readExcept _).bind fun _ => (passing_read _).bind fun _ =>
    (passing_runInvocation hcall fuel _ _ _ _).inFrame _ _

/-- A call lets the errors out that calls inside of it let out. -/
theorem passing_callStep (hcall : call.Passing) (fuel : Nat) : (callStep call fuel).Passing := by
  intro name args site
  refine (passing_read _).bind fun callee => ?_
  cases callee with
  | user f => exact passing_invoke hcall fuel f args site
  | builtin b =>
    exact congruence_passing.run (fun _ => hcall) (fun _ _ _ => passing_onHeap _) args site
  | reference target => exact hcall target args site
  | unknown => exact passing_fail _

end Calls

/-- All calls do so, whatever the fuel is. -/
theorem passing_callFunction (fuel : Nat) : (callFunction fuel).Passing := by
  induction fuel with
  | zero => exact fun _ _ _ _ _ _ h => nomatch h
  | succ fuel ih => exact passing_callStep ih fuel

/-! ### Scripts -/

/-- A script that is asked to finish has not failed. -/
theorem eval_of_runScript {n : Nat} {script : List Statement} {s s' : State} {e : ExecError}
    (h : runScript n script s = (.failed e, s')) : ∃ error, e = .eval error := by
  induction script generalizing s with
  | nil => cases h
  | cons st sts ih =>
    unfold runScript at h
    rcases hr : (st.execute (callFunction n) n).collecting s with ⟨r, s₁⟩
    rw [hr] at h
    cases r with
    | value signal =>
      simp only at h
      split at h
      · exact ih h
      · cases h
    | failed e₁ =>
      -- the request to finish ends a script without an error
      rcases passing_collecting _ s s₁ e₁ hr with ⟨error, rfl⟩ | rfl
      · cases h
        exact ⟨error, rfl⟩
      · cases h
    | outOfFuel => cases h

/-- **Only evaluation errors and the request to finish get out.**  An error of an expression,
of a list of arguments, of a call, of an invocation, of a body or of a block is of one of
these two kinds, and an error of a script is an evaluation error.  A statement that fails by
itself, or whose setting is refused, does not fail the block or the body it stands in: the
block ends with a signal, and the body notes the text of the error and, unless it is to
abort, goes on behind the statement. -/
theorem errors_run (n fuel : Nat) (s s' : State) (e : ExecError) :
    (∀ x : Expr, x.evaluate (callFunction n) s = (.failed e, s') → e.Passes) ∧
    (∀ xs, Expr.evaluateAll (callFunction n) xs s = (.failed e, s') → e.Passes) ∧
    (∀ name args site, callFunction n name args site s = (.failed e, s') → e.Passes) ∧
    (∀ f args site, invoke (callFunction n) fuel f args site s = (.failed e, s') → e.Passes) ∧
    (∀ policy body ds ds',
      runBody (callFunction n) fuel policy body ds s = ((.failed e, ds'), s') → e.Passes) ∧
    (∀ sts, Statement.executeBlock (callFunction n) fuel sts s = (.failed e, s') → e.Passes) ∧
    (∀ script, runScript n script s = (.failed e, s') → ∃ error, e = .eval error) ∧
    (∀ st : Statement, st.execute (callFunction n) fuel s = (.failed e, s') →
      e.collectable = true → ∀ policy sts ds,
        Statement.executeBlock (callFunction n) fuel (st :: sts) s =
          (.value (.failed e.message), s') ∧
        runBody (callFunction n) fuel policy (st :: sts) ds s =
          match policy with
          | .abort => ((.value none, ds.add (.failure e.message)), s')
          | .resume =>
            runBody (callFunction n) fuel .resume sts (ds.add (.failure e.message)) s') := by
  have hcall := passing_callFunction n
  refine ⟨fun x => ?_, fun xs => ?_, fun name args site => ?_, fun f args site => ?_,
    fun policy body ds ds' h => passes_of_runBody _ fuel policy h, fun sts => ?_,
    fun script h => eval_of_runScript h, fun st h he policy sts ds => ⟨?_, ?_⟩⟩
  · exact congruence_passing.evaluate hcall x s s' e
  · exact congruence_passing.evaluateAll hcall xs s s' e
  · exact hcall name args site s s' e
  · exact passing_invoke hcall fuel f args site s s' e
  · exact Statement.passing_executeBlock _ fuel sts s s' e
  · exact Statement.executeBlock_of_collectable h he sts
  · exact runBody_of_collectable h he policy sts ds

/-- A body that shows an error and goes on: the call of the function has a value, while the
call of an unknown function has none. -/
theorem errors_run_of_echoerr :
    let st : Statement := .command (.echo true [.string "bad"])
    let f : DefinedFunction := ⟨⟨.named "F", [st, .leave (some (.integer 7))]⟩, none⟩
    let s : State :=
      { session :=
          { (default : Session) with
            vars := .initial
            functions := ⟨Dict.empty.insert "F" f, .empty⟩
            settings := Settings.empty.declareAll [Catalogue.bounded "maxfuncdepth" "mfd" 9 1 100] }
        editor := default }
    let e : ExecError := .statement "bad"
    (st.execute (callFunction 1) 1 s = (.failed e, s) ∧ e.collectable = true ∧
      Statement.executeBlock (callFunction 1) 1 [st, .finish] s = (.value (.failed "bad"), s)) ∧
    (callFunction 2 "F" [] {} s).1 = .value (.integer 7) ∧
    ∃ e', (Expr.call "G" []).evaluate (callFunction 2) s = (.failed e', s) ∧ e'.Passes := by
  intro st f s e
  have hecho (call : Caller) (t : State) :
      (Statement.command (.echo true [.string "bad"])).execute call 1 t =
        (.failed (.statement "bad"), t) := by cbv
  have hst : st.execute (callFunction 1) 1 s = (.failed e, s) := hecho _ s
  have hcall : (Expr.call "G" []).evaluate (callFunction 2) s =
      (.failed (.eval (.unknownFunction "G")), s) := rfl
  refine ⟨⟨hst, rfl, ?_⟩, rfl, _, hcall, ?_⟩
  · obtain ⟨-, -, -, -, -, -, -, hnoted⟩ := errors_run 1 1 s s e
    exact (hnoted st hst rfl .resume [.finish] {}).1
  · exact (errors_run 2 0 s s _).1 _ hcall

end ModalScript
