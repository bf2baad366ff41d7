/-
Relations that last through a run.

A relation between the states before and after is `Lasting` if it holds of no step at all and
of steps one after the other, and a computation is `Within` it if it leads from each state to a
related one, whatever its outcome is.  What is within such a relation may be put together in
all the ways in which the interpreter puts computations together, loops included.

A loop may be within the relation although its body is not, since it is enough to look at the
states in which the body is run (`EntersWhile`, `EntersFor`).
-/
import ModalScript.Script.Run

namespace ModalScript

/-- A relation that is reflexive and transitive. -/
structure Lasting (E : State → State → Prop) : Prop where
  refl (s : State) : E s s
  trans {s t u : State} : E s t → E t u → E s u

/-- Whatever its outcome is, the computation leads to a state that is related to the one in
which it started. -/
def Interp.Within {α : Type} (E : State → State → Prop) (m : Interp α) : Prop :=
  ∀ s, E s (m s).2

/-- What is collected has changed the state no further. -/
theorem Interp.snd_collecting (m : Interp Signal) (s : State) : (m.collecting s).2 = (m s).2 := by
  unfold collecting
  rcases m s with ⟨r, t⟩
  cases r with
  | failed e =>
    simp only
    split
    · rfl
    · rfl
  | value signal | outOfFuel => rfl

/-- A relation between states does not care for what is collected. -/
theorem Interp.Within.collecting {E : State → State → Prop} {m : Interp Signal}
    (hm : m.Within E) : m.collecting.Within E := by
  intro s
  rw [snd_collecting]
  exact hm s

namespace Interp

variable {α β : Type} {m : Interp α}

/-- Computations obey the laws of monads. -/
instance : LawfulMonad Interp := by
  refine .mk' Interp (fun m => ?_) (fun a f => rfl) fun m f g => ?_
  · funext s
    show m.andThen _ s = m s
    unfold Interp.andThen
    rcases m s with ⟨r, t⟩
    cases r <;> rfl
  · funext s
    show (m.andThen f).andThen g s = m.andThen (fun a => (f a).andThen g) s
    unfold Interp.andThen
    rcases m s with ⟨r, t⟩
    cases r <;> rfl

/-- A computation that has a value is followed by the next one. -/
theorem bind_of_value {s t : State} {a : α}
    (h : m s = (.value a, t)) (f : α → Interp β) : (m >>= f) s = f a t := by
  show m.andThen f s = _
  unfold andThen
  rw [h]

/-- Two computations have a value if the first one has, and the second one has in the state
behind it. -/
theorem bind_eq_value_iff {f : α → Interp β} {s t : State} {b : β} :
    (m >>= f) s = (.value b, t) ↔
      ∃ a s₁, m s = (.value a, s₁) ∧ f a s₁ = (.value b, t) := by
  show m.andThen f s = _ ↔ _
  unfold andThen
  rcases m s with ⟨r, s₁⟩
  cases r with
  | value a =>
    constructor
    · exact fun h => ⟨a, s₁, rfl, h⟩
    · rintro ⟨_, _, h, hf⟩
      cases h
      exact hf
  | failed e | outOfFuel =>
    constructor
    · intro h
      cases h
    · rintro ⟨_, _, h, -⟩
      cases h

end Interp

/-! ### Loops as rounds -/

/-- What a loop does after its body: it goes on, or it ends with a signal. -/
def Signal.thenLoop (signal : Signal) (next : Interp Signal) : Interp Signal :=
  match signal.afterBody with
  | none => next
  | some signal => pure signal

/-- One round of a loop, and the rest. -/
theorem whileLoop_succ (test : Interp Bool) (body : Interp Signal) (fuel : Nat) :
    whileLoop test body (fuel + 1) = (do
      let holds ← test
      if holds then do
        let signal ← body
        signal.thenLoop (whileLoop test body fuel)
      else pure .done) := by
  funext s
  show whileLoop test body (fuel + 1) s = test.andThen _ s
  simp only [whileLoop, Interp.andThen]
  -- the test, then the body, and each of them may end the loop
  rcases test s with ⟨r, s₁⟩
  cases r with
  | value holds =>
    cases holds with
    | true =>
      show _ = body.andThen _ s₁
      simp only [Interp.andThen]
      rcases body s₁ with ⟨r, s₂⟩
      cases r with
      | value signal =>
        simp only [Signal.thenLoop]
        cases signal.afterBody <;> rfl
      | failed e => rfl
      | outOfFuel => rfl
    | false => rfl
  | failed e => rfl
  | outOfFuel => rfl

/-- One round of a loop through values, and the rest. -/
theorem forLoop_cons (target : VariableName) (body : Interp Signal) (v : Value)
    (vs : List Value) :
    forLoop target body (v :: vs) = (do
      Interp.store target v
      let signal ← body
      signal.thenLoop (forLoop target body vs)) := by
  funext s
  show _ = (Interp.store target v).andThen _ s
  simp only [forLoop, bind, Interp.andThen]
  rcases Interp.store target v s with ⟨r, s₁⟩
  cases r with
  | value _ =>
    simp only
    rcases body s₁ with ⟨r, s₂⟩
    cases r with
    | value signal =>
      simp only [Signal.thenLoop]
      cases signal.afterBody <;> rfl
    | failed e => rfl
    | outOfFuel => rfl
  | failed e => rfl
  | outOfFuel => rfl

/-- A `while` loop that may go through so many rounds comes to a round whose body is run in a
state.  The rounds before it went on, and their bodies were run in states that are fine. -/
inductive EntersWhile (test : Interp Bool) (body : Interp Signal) (fine : State → Prop) :
    Nat → State → State → Prop
  | first {k : Nat} {s t : State} :
      test s = (.value true, t) → EntersWhile test body fine (k + 1) s t
  | later {k : Nat} {s s₁ s₂ t : State} {signal : Signal} :
      test s = (.value true, s₁) → fine s₁ → body s₁ = (.value signal, s₂) →
      signal.afterBody = none → EntersWhile test body fine k s₂ t →
      EntersWhile test body fine (k + 1) s t

/-- A `for` loop through values comes to a round whose body is run in a state. -/
inductive EntersFor (target : VariableName) (body : Interp Signal) (fine : State → Prop) :
    List Value → State → State → Prop
  | first {v : Value} {vs : List Value} {s t : State} :
      Interp.store target v s = (.value (), t) → EntersFor target body fine (v :: vs) s t
  | later {v : Value} {vs : List Value} {s s₁ s₂ t : State} {signal : Signal} :
      Interp.store target v s = (.value (), s₁) → fine s₁ → body s₁ = (.value signal, s₂) →
      signal.afterBody = none → EntersFor target body fine vs s₂ t →
      EntersFor target body fine (v :: vs) s t

/-! ### Computations one after the other -/

namespace Lasting

variable {E : State → State → Prop} {α β : Type} {m : Interp α}

theorem pure (hE : Lasting E) (a : α) : (Pure.pure a : Interp α).Within E :=
  hE.refl

theorem fail (hE : Lasting E) (e : ExecError) : (Interp.fail e : Interp α).Within E :=
  hE.refl

theorem exhausted (hE : Lasting E) : (Interp.exhausted : Interp α).Within E :=
  hE.refl

theorem ofExcept (hE : Lasting E) (r : Except EvalError α) : (Interp.ofExcept r).Within E := by
  cases r with
  | ok a => exact hE.pure a
  | error e => exact hE.fail _

theorem readExcept (hE : Lasting E) (f : State → Except EvalError α) :
    (Interp.readExcept f).Within E :=
  fun s => hE.ofExcept (f s) s

theorem read (hE : Lasting E) (f : State → α) : (Interp.read f).Within E :=
  hE.refl

/-- A computation and the next one are within the relation from a state, if the next one is so from
the states that the first one leaves. -/
theorem bind_at (hE : Lasting E) {f : α → Interp β} {s : State} (hm : E s (m s).2)
    (hf : ∀ a t, m s = (.value a, t) → E t (f a t).2) : E s ((m >>= f) s).2 := by
  show E s (m.andThen f s).2
  unfold Interp.andThen
  rcases hr : m s with ⟨r, s₁⟩
  rw [hr] at hm
  -- without a value the next computation does not run
  cases r with
  | value a => exact hE.trans hm (hf a s₁ hr)
  | failed e => exact hm
  | outOfFuel => exact hm

/-- Computations one after the other are within the relation. -/
theorem bind (hE : Lasting E) {f : α → Interp β} (hm : m.Within E) (hf : ∀ a, (f a).Within E) :
    (m >>= f).Within E :=
  fun s => hE.bind_at (hm s) fun a t _ => hf a t

theorem forM (hE : Lasting E) {as : List α} {f : α → Interp Unit}
    (hf : ∀ a ∈ as, (f a).Within E) : (as.forM f).Within E := by
  induction as with
  | nil => exact hE.pure _
  | cons a as ih =>
    rw [List.forall_mem_cons] at hf
    exact hE.bind hf.1 fun _ => ih hf.2

/-- The test of a `while` loop is within the relation, and so is its body where it is run. -/
theorem whileLoop_at (hE : Lasting E) {test : Interp Bool} {body : Interp Signal}
    (htest : test.Within E) {k : Nat} {s : State}
    (hbody : ∀ t, EntersWhile test body (fun _ => True) k s t → E t (body t).2) :
    E s (whileLoop test body k s).2 := by
  induction k generalizing s with
  | zero => exact hE.refl s
  | succ k ih =>
    rw [whileLoop_succ]
    refine hE.bind_at (htest s) fun holds s₁ hholds => ?_
    cases holds with
    | false => exact hE.refl s₁
    | true =>
      -- the body is run in a state that the loop enters, and in later rounds too
      refine hE.bind_at (hbody s₁ (.first hholds)) fun signal s₂ hsignal => ?_
      unfold Signal.thenLoop
      cases hafter : signal.afterBody with
      | none => exact ih fun t ht => hbody t (.later hholds trivial hsignal hafter ht)
      | some signal' => exact hE.refl s₂

/-- The rounds before are within the relation, if their bodies are so in fine states. -/
theorem entersWhile (hE : Lasting E) {test : Interp Bool} {body : Interp Signal}
    {fine : State → Prop} (htest : test.Within E) (hbody : ∀ t, fine t → E t (body t).2)
    {k : Nat} {s t : State} (h : EntersWhile test body fine k s t) : E s t := by
  induction h with
  | @first k s t hholds =>
    have hs := htest s
    rwa [hholds] at hs
  | @later k s s₁ s₂ t signal hholds hfine hsignal _ _ ih =>
    have hs := htest s
    have hs₁ := hbody s₁ hfine
    rw [hholds] at hs
    rw [hsignal] at hs₁
    exact hE.trans (hE.trans hs hs₁) ih

/-- The body of a `for` loop is within the relation where it is run. -/
theorem forLoop_at (hE : Lasting E) {target : VariableName} {body : Interp Signal}
    (hstore : ∀ v, (Interp.store target v).Within E) {vs : List Value} {s : State}
    (hbody : ∀ t, EntersFor target body (fun _ => True) vs s t → E t (body t).2) :
    E s (forLoop target body vs s).2 := by
  induction vs generalizing s with
  | nil => exact hE.refl s
  | cons v vs ih =>
    rw [forLoop_cons]
    refine hE.bind_at (hstore v s) fun _ s₁ hs₁ =>
      hE.bind_at (hbody s₁ (.first hs₁)) fun signal s₂ hsignal => ?_
    unfold Signal.thenLoop
    cases hafter : signal.afterBody with
    | none => exact ih fun t ht => hbody t (.later hs₁ trivial hsignal hafter ht)
    | some signal' => exact hE.refl s₂

/-- The rounds before are within the relation, as in a `while` loop. -/
theorem entersFor (hE : Lasting E) {target : VariableName} {body : Interp Signal}
    {fine : State → Prop} (hstore : ∀ v, (Interp.store target v).Within E)
    (hbody : ∀ t, fine t → E t (body t).2) {vs : List Value} {s t : State}
    (h : EntersFor target body fine vs s t) : E s t := by
  induction h with
  | @first v vs s t hs₁ =>
    have hs := hstore v s
    rwa [hs₁] at hs
  | @later v vs s s₁ s₂ t signal hstored hfine hsignal _ _ ih =>
    have hs := hstore v s
    have hs₁ := hbody s₁ hfine
    rw [hstored] at hs
    rw [hsignal] at hs₁
    exact hE.trans (hE.trans hs hs₁) ih

end Lasting

end ModalScript
