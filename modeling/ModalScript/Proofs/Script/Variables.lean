/-
What the operations on variables do to frames and local variables.

An assignment or a removal leaves all frames alone and changes the local variables of at
most one invocation, which is the innermost running function or the one that it has
captured (`LocalChange`).  Everything about frames and local variables that is proved of
runs goes back to `localChange_store` and `localChange_remove`.
-/
import ModalScript.Script.Variables

namespace ModalScript

namespace Variables

variable {vs vs' : Variables} {r r' : LocalsRef} {v : VariableName} {x : Value} {id : EditorId}

/-! ### Local tables -/

/-- Replacing the variables of one invocation leaves those of the others alone. -/
theorem localTable_setLocalTable_ne (vs : Variables) (d : Dict Value) (h : r' ≠ r) :
    (vs.setLocalTable r d).localTable r' = vs.localTable r' := by
  -- a table is meant by its slot alone
  have hslot : r.slot ≠ r'.slot := fun he => h (by cases r; cases r'; cases he; rfl)
  simp [setLocalTable, localTable, hslot]

/-- The variables of a new invocation are none of those that exist. -/
theorem localTable_push (vs : Variables) (function : String) (captured : Option LocalsRef)
    (h : r.slot < vs.localTables.size) :
    (vs.push function captured).localTable r = vs.localTable r := by
  have hslot : r.slot ≠ vs.localTables.size := Nat.ne_of_lt h
  simp [push, localTable, Array.getElem?_push, hslot]

/-! ### Assignment and removal -/

/-- The frames are the same, and so are all local variables, except that those of the innermost
running function or those it has captured may have been replaced. -/
def LocalChange (vs vs' : Variables) : Prop :=
  vs'.frames = vs.frames ∧
  (vs'.localTables = vs.localTables ∨
    ∃ f r d, vs.frame? = some f ∧ (r = f.locals ∨ f.captured = some r) ∧
      vs'.localTables = (vs.setLocalTable r d).localTables)

/-- No local variables come into being or go away. -/
theorem LocalChange.size_eq (h : vs.LocalChange vs') :
    vs'.localTables.size = vs.localTables.size := by
  obtain ⟨-, htables | ⟨f, r, d, -, -, htables⟩⟩ := h
  · rw [htables]
  · rw [htables, setLocalTable, Array.size_setIfInBounds]

/-- Other local variables keep their values. -/
theorem LocalChange.localTable_eq (h : vs.LocalChange vs')
    (hr : ∀ f, vs.frame? = some f → f.locals ≠ r ∧ f.captured ≠ some r) :
    vs'.localTable r = vs.localTable r := by
  obtain ⟨-, htables | ⟨f, r', d, hf, hr', htables⟩⟩ := h
  · rw [localTable, htables, localTable]
  · have hne : r ≠ r' := by
      rintro rfl
      rcases hr' with hlocals | hcaptured
      · exact (hr f hf).1 hlocals.symm
      · exact (hr f hf).2 hcaptured
    rw [localTable, htables, ← localTable]
    exact localTable_setLocalTable_ne vs d hne

/-- An assignment without a scope is to local or to captured variables. -/
theorem assignedLocals_eq_or (vs : Variables) (f : Frame) (name : String) :
    vs.assignedLocals f name = f.locals ∨ f.captured = some (vs.assignedLocals f name) := by
  unfold assignedLocals
  cases hcaptured : f.captured with
  | none => exact Or.inl rfl
  | some r =>
    simp only
    split
    · exact Or.inr rfl
    · exact Or.inl rfl

theorem localChange_of_tables_eq (hframes : vs'.frames = vs.frames)
    (htables : vs'.localTables = vs.localTables) : vs.LocalChange vs' :=
  ⟨hframes, Or.inl htables⟩

theorem localChange_setLocalTable {f : Frame} (hf : vs.frame? = some f) (d : Dict Value)
    (hr : r = f.locals ∨ f.captured = some r) : vs.LocalChange (vs.setLocalTable r d) :=
  ⟨rfl, Or.inr ⟨f, r, d, hf, hr, rfl⟩⟩

/-- An assignment changes the local variables of one invocation at most. -/
theorem localChange_store (h : vs.store v x id = .ok vs') : vs.LocalChange vs' := by
  obtain ⟨scope, name⟩ := v
  cases scope with
  | none =>
    cases hf : vs.frame? with
    | none =>
      simp only [store, hf] at h
      cases h
      exact localChange_of_tables_eq rfl rfl
    | some f =>
      simp only [store, hf] at h
      cases h
      exact localChange_setLocalTable hf _ (vs.assignedLocals_eq_or f name)
  | some scope =>
    cases scope with
    | globals | script | buffer | window | tab =>
      cases h
      exact localChange_of_tables_eq rfl rfl
    -- arguments cannot be assigned
    | arguments => cases h
    | locals =>
      cases hf : vs.frame? with
      | none =>
        simp only [store, hf] at h
        cases h
      | some f =>
        simp only [store, hf] at h
        cases h
        exact localChange_setLocalTable hf _ (Or.inl rfl)
    | builtins =>
      simp only [store] at h
      split at h
      · cases h
        exact localChange_of_tables_eq rfl rfl
      · cases h

/-- A removal does so as well. -/
theorem localChange_remove {found : Bool} (h : vs.remove v id = .ok (found, vs')) :
    vs.LocalChange vs' := by
  obtain ⟨scope, name⟩ := v
  cases scope with
  | none =>
    cases hf : vs.frame? with
    | none =>
      simp only [remove, hf] at h
      cases h
      exact localChange_of_tables_eq rfl rfl
    | some f =>
      simp only [remove, hf] at h
      cases h
      -- unlike an assignment, only the local variables are asked
      exact localChange_setLocalTable hf _ (Or.inl rfl)
  | some scope =>
    cases scope with
    | globals | script | buffer | window | tab =>
      cases h
      exact localChange_of_tables_eq rfl rfl
    | arguments | builtins => cases h
    | locals =>
      cases hf : vs.frame? with
      | none =>
        simp only [remove, hf] at h
        cases h
        exact localChange_of_tables_eq rfl rfl
      | some f =>
        simp only [remove, hf] at h
        cases h
        exact localChange_setLocalTable hf _ (Or.inl rfl)

end Variables

end ModalScript
