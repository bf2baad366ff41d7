/-
Computations on the elements of a list that may fail.

A computation for each element, one after the other, fails with the error of some element
(`exists_of_mapM_eq_error`), or it has a result for each of them (`forall₂_of_mapM_eq_ok`).
Where the computations have a state besides, each one starts in the state that the one before it
has left.
-/
import ModalScript.Proofs.Lists

namespace ModalScript

variable {α β ε : Type} {f : α → Except ε β} {as : List α}

theorem except_map_eq_ok {γ : Type} {r : Except ε β} {g : β → γ} {c : γ} (h : r.map g = .ok c) :
    ∃ b, r = .ok b ∧ g b = c := by
  cases r with
  | error e => cases h
  | ok b => exact ⟨b, rfl, Except.ok.inj h⟩

theorem except_map_eq_error {γ : Type} {r : Except ε β} {g : β → γ} {e : ε}
    (h : r.map g = .error e) : r = .error e := by
  cases r with
  | error e' => exact congrArg Except.error (Except.error.inj h)
  | ok b => cases h

/-- The first computation has a result, and the others go on. -/
theorem mapM_cons_of_ok {a : α} {b : β} (ha : f a = .ok b) (as : List α) :
    (a :: as).mapM f = (as.mapM f).map (b :: ·) := by
  rw [List.mapM_cons]
  show (f a).bind _ = _
  rw [ha]
  cases as.mapM f <;> rfl

/-- The first computation fails, and the others are not made. -/
theorem mapM_cons_of_error {a : α} {e : ε} (ha : f a = .error e) (as : List α) :
    (a :: as).mapM f = .error e := by
  rw [List.mapM_cons]
  show (f a).bind _ = _
  rw [ha]
  rfl

/-- An error is the error of some element. -/
theorem exists_of_mapM_eq_error {e : ε} (h : as.mapM f = .error e) : ∃ a ∈ as, f a = .error e := by
  induction as with
  | nil => cases h
  | cons a as ih =>
    -- the first computation that fails is the one whose error comes out
    cases ha : f a with
    | error e' =>
      rw [mapM_cons_of_error ha] at h
      cases h
      exact ⟨a, List.mem_cons_self, ha⟩
    | ok b =>
      rw [mapM_cons_of_ok ha] at h
      obtain ⟨a', ha', he⟩ := ih (except_map_eq_error h)
      exact ⟨a', List.mem_cons_of_mem a ha', he⟩

/-- Without an error all elements have results. -/
theorem forall₂_of_mapM_eq_ok {bs : List β} (h : as.mapM f = .ok bs) :
    List.Forall₂ (fun a b => f a = .ok b) as bs := by
  induction as generalizing bs with
  | nil =>
    cases h
    exact .nil
  | cons a as ih =>
    cases ha : f a with
    | error e =>
      rw [mapM_cons_of_error ha] at h
      cases h
    | ok b =>
      rw [mapM_cons_of_ok ha] at h
      obtain ⟨bs', hbs', rfl⟩ := except_map_eq_ok h
      exact .cons ha (ih hbs')

/-- Where all elements have results these are the results. -/
theorem mapM_eq_ok_of_forall₂ {bs : List β} (h : List.Forall₂ (fun a b => f a = .ok b) as bs) :
    as.mapM f = .ok bs := by
  induction h with
  | nil => rfl
  | cons ha _ ih => rw [mapM_cons_of_ok ha, ih]; rfl

/-! ### Computations with a state -/

section WithState

variable {σ : Type} {f : α → StateT σ (Except ε) β} {s t : σ} {a : α}

/-- The others go on in the state that the first computation has left. -/
theorem mapM_cons_apply_of_ok {b : β} (as : List α) (ha : f a s = .ok (b, t)) :
    (a :: as).mapM f s = (as.mapM f t).map fun r => (b :: r.1, r.2) := by
  rw [List.mapM_cons]
  show (f a s).bind _ = _
  rw [ha]
  show (as.mapM f t).bind _ = _
  cases as.mapM f t <;> rfl

theorem mapM_cons_apply_of_error {e : ε} (as : List α) (ha : f a s = .error e) :
    (a :: as).mapM f s = .error e := by
  rw [List.mapM_cons]
  show (f a s).bind _ = _
  rw [ha]
  rfl

end WithState

end ModalScript
