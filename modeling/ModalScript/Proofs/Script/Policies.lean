/-
What the two policies about problems have in common.

A body that resumes behind its problems goes through its statements up to the first one that
returns; `Resumes` lists the statements it has run, each with the state it started in, its
signal and the state it ended in.  A body that aborts goes the same way up to the first
statement whose signal is a problem, and stops in the state behind that statement
(`Resumes.abort`).

Main result: `runBody_policies`.
-/
import ModalScript.Proofs.Script.Bodies
import ModalScript.Script.Call

namespace ModalScript

/-- Whether a statement of a body that ends with the signal is a problem of that body: a jump
that no loop has taken, or a failure. -/
def Signal.isProblem : Signal → Bool
  | .broken | .continued | .failed _ => true
  | .done | .returned _ => false

theorem Signal.isSome_problem? (signal : Signal) :
    signal.problem?.isSome = signal.isProblem := by
  cases signal <;> rfl

/-- Only a statement that ends normally or returns is no problem. -/
theorem Signal.eq_done_of_problem? {signal : Signal} (hproblem : signal.problem? = none)
    (hreturned : ∀ v, signal ≠ .returned v) : signal = .done := by
  cases signal with
  | done => rfl
  | returned v => exact absurd rfl (hreturned v)
  | broken | continued | failed text => cases hproblem

/-- The number of problems that are noted. -/
theorem count_foldl_add (ps : List Diagnostic) (ds : Diagnostics) :
    (ps.foldl Diagnostics.add ds).count = ds.count + ps.length := by
  induction ps generalizing ds with
  | nil => rfl
  | cons d ps ih =>
    rw [List.foldl_cons, ih, List.length_cons]
    show ds.count + 1 + ps.length = _
    omega

/-! ### Statement after statement -/

/-- A statement of a body that has been run. -/
structure BodyStep where
  start : State
  signal : Signal
  finish : State

/-- A body has gone through its statements, whatever their problems are, up to one that
returns or to the end. -/
inductive Resumes (call : Caller) (fuel : Nat) :
    List Statement → State → List BodyStep → Option Value → State → Prop
  | nil (s : State) : Resumes call fuel [] s [] none s
  | returned {st : Statement} {sts : List Statement} {s t : State} {v : Value} :
      (st.execute call fuel).collecting s = (.value (.returned v), t) →
      Resumes call fuel (st :: sts) s [⟨s, .returned v, t⟩] (some v) t
  | next {st : Statement} {sts : List Statement} {s t u : State} {signal : Signal}
      {steps : List BodyStep} {v : Option Value} :
      (st.execute call fuel).collecting s = (.value signal, t) →
      (∀ v, signal ≠ .returned v) →
      Resumes call fuel sts t steps v u →
      Resumes call fuel (st :: sts) s (⟨s, signal, t⟩ :: steps) v u

section Runs

variable {call : Caller} {fuel : Nat} {body : List Statement} {s t : State} {v : Option Value}
  {steps : List BodyStep}

/-- A run that resumes has gone through statements, if nothing has cut it short. -/
theorem exists_resumes {ds ds₁ : Diagnostics}
    (h : runBody call fuel .resume body ds s = ((.value v, ds₁), t)) :
    ∃ steps, Resumes call fuel body s steps v t := by
  induction body generalizing ds s with
  | nil =>
    cases h
    exact ⟨[], .nil _⟩
  | cons st sts ih =>
    unfold runBody at h
    rcases hr : (st.execute call fuel).collecting s with ⟨r, s₁⟩
    rw [hr] at h
    cases r with
    | failed e | outOfFuel => cases h
    | value signal =>
      cases signal with
      | returned w =>
        cases h
        exact ⟨_, .returned hr⟩
      | _ =>
        obtain ⟨steps, hsteps⟩ := ih h
        refine ⟨_, .next hr (fun w heq => ?_) hsteps⟩
        cases heq

namespace Resumes

/-- The problems are those of the statements that have been run. -/
theorem bodyProblems_eq (h : Resumes call fuel body s steps v t) :
    bodyProblems call fuel .resume body s = steps.filterMap (·.signal.problem?) := by
  induction h with
  | nil => rfl
  | returned hr =>
    unfold bodyProblems
    rw [hr]
    rfl
  | @next st sts s t u signal steps v hr hreturned _ ih =>
    unfold bodyProblems
    rw [hr, List.filterMap_cons]
    cases signal with
    | returned w => exact absurd rfl (hreturned w)
    | done | broken | continued | failed text =>
      simp only [ih]
      rfl

/-- A run that aborts has the same end, if no statement is a problem, and else it ends behind
the first statement that is one. -/
theorem abort (h : Resumes call fuel body s steps v t) (ds : Diagnostics) :
    ((∀ step ∈ steps, step.signal.problem? = none) ∧
      runBody call fuel .abort body ds s = ((.value v, ds), t)) ∨
    ∃ before step after d, steps = before ++ step :: after ∧
      (∀ b ∈ before, b.signal = .done) ∧ step.signal.problem? = some d ∧
      runBody call fuel .abort body ds s = ((.value none, ds.add d), step.finish) := by
  induction h with
  | nil s => exact .inl ⟨List.forall_mem_nil _, rfl⟩
  | returned hr =>
    refine .inl ⟨List.forall_mem_singleton.mpr rfl, ?_⟩
    unfold runBody
    rw [hr]
  | @next st sts s t u signal steps v hr hreturned _ ih =>
    cases hproblem : signal.problem? with
    | some d =>
      -- the first statement is the problem
      refine .inr ⟨[], ⟨s, signal, t⟩, steps, d, rfl, List.forall_mem_nil _, hproblem, ?_⟩
      unfold runBody
      rw [hr]
      cases signal with
      | done | returned w => cases hproblem
      | broken | continued | failed text =>
        cases hproblem
        rfl
    | none =>
      obtain rfl := Signal.eq_done_of_problem? hproblem hreturned
      have hrun : runBody call fuel .abort (st :: sts) ds s =
          runBody call fuel .abort sts ds t := by
        rw [runBody, hr]
      rw [hrun]
      rcases ih with ⟨hsteps, habort⟩ | ⟨before, step, after, d, rfl, hbefore, hd, habort⟩
      · exact .inl ⟨List.forall_mem_cons.mpr ⟨rfl, hsteps⟩, habort⟩
      · exact .inr ⟨⟨s, .done, t⟩ :: before, step, after, d, rfl,
          List.forall_mem_cons.mpr ⟨rfl, hbefore⟩, hd, habort⟩

end Resumes

end Runs

/-- **The two policies agree up to the first problem.**  A body that resumes behind its problems
has been run and nothing has cut it short.  The problems that this has noted are those of the
statements it has gone through, and their number is the number of statements that ended with a
jump or a failure.

The same body from the same state, but aborting, is not cut short either, and notes at most one
problem.  If resuming has noted none, it returns the same, ends in the same state and notes
none; and if resuming has noted some, it returns nothing, notes the first of them, and ends in
the state in which the statement ended that was this problem. -/
theorem runBody_policies {call : Caller} {fuel : Nat} {body : List Statement}
    {ds ds₁ : Diagnostics} {s t : State} {v : Option Value}
    (hresume : runBody call fuel .resume body ds s = ((.value v, ds₁), t)) :
    ∃ steps, Resumes call fuel body s steps v t ∧
      ds₁ = (steps.filterMap (·.signal.problem?)).foldl Diagnostics.add ds ∧
      ds₁.count = ds.count + steps.countP (·.signal.isProblem) ∧
      (runBody call fuel .abort body ds s).1.2.count ≤ ds.count + 1 ∧
      (ds₁.count = ds.count →
        ds₁ = ds ∧ runBody call fuel .abort body ds s = ((.value v, ds), t)) ∧
      (ds₁.count ≠ ds.count → ∃ before step after d,
        steps = before ++ step :: after ∧ (∀ b ∈ before, b.signal = .done) ∧
        step.signal.problem? = some d ∧
        runBody call fuel .abort body ds s = ((.value none, ds.add d), step.finish)) := by
  obtain ⟨steps, hsteps⟩ := exists_resumes hresume
  have hds₁ : ds₁ = (steps.filterMap (·.signal.problem?)).foldl Diagnostics.add ds := by
    rw [← hsteps.bodyProblems_eq, ← diagnostics_runBody, hresume]
  have hcount : ds₁.count = ds.count + steps.countP (·.signal.isProblem) := by
    rw [hds₁, count_foldl_add, List.length_filterMap_eq_countP]
    simp only [Signal.isSome_problem?]
  refine ⟨steps, hsteps, hds₁, hcount, ?_⟩
  rcases hsteps.abort ds with ⟨hnone, habort⟩ | ⟨before, step, after, d, heq, hbefore, hd, habort⟩
  · -- nothing is noted at all
    have hclean : steps.filterMap (·.signal.problem?) = [] :=
      List.filterMap_eq_nil_iff.mpr hnone
    have hsame : ds₁ = ds := by rw [hds₁, hclean, List.foldl_nil]
    refine ⟨?_, fun _ => ⟨hsame, habort⟩, fun hne => absurd (congrArg _ hsame) hne⟩
    rw [habort]
    exact Nat.le_succ _
  · have hproblem : step.signal.isProblem = true := by
      rw [← Signal.isSome_problem?, hd]
      rfl
    have hpos : 0 < steps.countP (·.signal.isProblem) :=
      List.countP_pos_iff.mpr ⟨step, heq ▸ List.mem_append_right _ List.mem_cons_self, hproblem⟩
    refine ⟨?_, fun hsame => by omega, fun _ => ⟨before, step, after, d, heq, hbefore, hd, habort⟩⟩
    rw [habort]
    exact Nat.le_refl _

/-- A stray `break` in front of a `return`: resuming returns, aborting does not. -/
theorem runBody_policies_of_stray_break :
    let body : List Statement := [.breakLoop, .leave none]
    let s : State := default
    runBody (callFunction 1) 1 .resume body {} s =
        ((.value (some (.integer 0)), ⟨some .breakWithoutLoop, 1⟩), s) ∧
      ∃ steps, Resumes (callFunction 1) 1 body s steps (some (.integer 0)) s ∧
        steps.countP (·.signal.isProblem) = 1 ∧
        ∃ before step after d, steps = before ++ step :: after ∧ (∀ b ∈ before, b.signal = .done) ∧
          step.signal.problem? = some d ∧
          runBody (callFunction 1) 1 .abort body {} s =
            ((.value none, Diagnostics.add {} d), step.finish) := by
  intro body s
  have hresume : runBody (callFunction 1) 1 .resume body {} s =
      ((.value (some (.integer 0)), ⟨some .breakWithoutLoop, 1⟩), s) := rfl
  obtain ⟨steps, hsteps, -, hcount, -, -, habort⟩ := runBody_policies hresume
  exact ⟨hresume, steps, hsteps, (Nat.zero_add _).symm.trans hcount.symm, habort (by decide)⟩

end ModalScript
