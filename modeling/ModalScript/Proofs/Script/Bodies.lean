/-
The problems of a body.

While the body of a function runs, its problems are noted, but all that is kept of them is the
last one and their number.  `bodyProblems` lists them.  What has been noted afterwards is what
had been noted before and then this list, and neither the result of a run nor the state behind
it depends on what had been noted (`runBody_eq`).
-/
import ModalScript.Script.Execute

namespace ModalScript

/-- The problems that a run of a body notes, the oldest one first. -/
def bodyProblems (call : Caller) (fuel : Nat) (policy : BodyPolicy) :
    List Statement → State → List Diagnostic
  | [], _ => []
  | st :: sts, s =>
    match (st.execute call fuel).collecting s with
    | (.failed _, _) | (.outOfFuel, _) | (.value (.returned _), _) => []
    | (.value signal, s) =>
      match signal.problem? with
      | none => bodyProblems call fuel policy sts s
      | some d =>
        match policy with
        | .abort => [d]
        | .resume => d :: bodyProblems call fuel policy sts s

section Runs

variable (call : Caller) (fuel : Nat) (policy : BodyPolicy) (body : List Statement)

/-- A run does not depend on what has been noted before, and adds its problems to it. -/
theorem runBody_eq (ds : Diagnostics) (s : State) :
    runBody call fuel policy body ds s =
      (((runBody call fuel policy body {} s).1.1,
          (bodyProblems call fuel policy body s).foldl Diagnostics.add ds),
        (runBody call fuel policy body {} s).2) := by
  induction body generalizing ds s with
  | nil => rfl
  | cons st sts ih =>
    unfold runBody bodyProblems
    rcases (st.execute call fuel).collecting s with ⟨r, s₁⟩
    cases r with
    | failed e | outOfFuel => rfl
    | value signal =>
      cases signal with
      | returned v => rfl
      | done => exact ih ds s₁
      | _ =>
        -- a problem; if the body goes on, the rest adds to it
        cases policy with
        | abort => rfl
        | resume =>
          simp only [Signal.problem?, List.foldl_cons]
          rw [ih (ds.add _), ih (Diagnostics.add {} _)]

theorem diagnostics_runBody (ds : Diagnostics) (s : State) :
    (runBody call fuel policy body ds s).1.2 =
      (bodyProblems call fuel policy body s).foldl Diagnostics.add ds := by
  rw [runBody_eq]

end Runs

/-- The last problem that has been noted. -/
theorem last_foldl_add (ps : List Diagnostic) (ds : Diagnostics) :
    (ps.foldl Diagnostics.add ds).last = ps.getLast?.or ds.last := by
  induction ps generalizing ds with
  | nil => rfl
  | cons d ps ih =>
    rw [List.foldl_cons, ih, List.getLast?_cons]
    cases ps.getLast? <;> rfl

/-- What a body notes are the problems that the signals of its statements are. -/
theorem exists_signal_of_mem_bodyProblems {call : Caller} {fuel : Nat} {policy : BodyPolicy}
    {body : List Statement} {s : State} {d : Diagnostic}
    (hd : d ∈ bodyProblems call fuel policy body s) :
    ∃ st ∈ body, ∃ s₁ signal s₂, (st.execute call fuel).collecting s₁ = (.value signal, s₂) ∧
      signal.problem? = some d := by
  induction body generalizing s with
  | nil => cases hd
  | cons st sts ih =>
    -- what the statements behind the first one note
    have hrest {t : State} (hd : d ∈ bodyProblems call fuel policy sts t) :
        ∃ st' ∈ st :: sts, ∃ s₁ signal s₂,
          (st'.execute call fuel).collecting s₁ = (.value signal, s₂) ∧
            signal.problem? = some d := by
      obtain ⟨st', hst', hsignal⟩ := ih hd
      exact ⟨st', List.mem_cons_of_mem st hst', hsignal⟩
    unfold bodyProblems at hd
    rcases hr : (st.execute call fuel).collecting s with ⟨r, s₁⟩
    rw [hr] at hd
    cases r with
    | failed e | outOfFuel => cases hd
    | value signal =>
      cases signal with
      | returned v => cases hd
      | done => exact hrest hd
      | _ =>
        cases policy with
        | abort =>
          obtain rfl := List.mem_singleton.mp hd
          exact ⟨st, List.mem_cons_self, s, _, s₁, hr, rfl⟩
        | resume =>
          rcases List.mem_cons.mp hd with rfl | hd
          · exact ⟨st, List.mem_cons_self, s, _, s₁, hr, rfl⟩
          · exact hrest hd

end ModalScript
