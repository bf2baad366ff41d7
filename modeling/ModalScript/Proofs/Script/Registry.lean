/-
What definitions and removals do to the registered functions.

A definition files one function in its scope and under its name (`Functions.get?_define`), and a
removal takes away what is filed in one place (`Functions.get?_remove`); all other places are as
before.  So a property of functions that every registered one has is kept by both, provided that
the function which is defined has it too (`Functions.Every.define`, `Functions.Every.remove`).
-/
import ModalScript.Script.Functions

namespace ModalScript

/-- Taking away what is not there changes nothing. -/
theorem Dict.erase_of_get?_eq_none {α : Type} {d : Dict α} {k : String} (h : d.get? k = none) :
    d.erase k = d := by
  refine Dict.eq_of_entries (List.filter_eq_self.mpr fun e he => ?_)
  rw [decide_eq_true_iff]
  rintro rfl
  rw [Dict.get?_eq_some_iff.mpr he] at h
  cases h

namespace Functions

variable {fs fs' : Functions} {f : DefinedFunction} {P : DefinedFunction → Prop}

/-- Every registered function has the property. -/
def Every (P : DefinedFunction → Prop) (fs : Functions) : Prop :=
  ∀ scope name f, (fs.table scope).get? name = some f → P f

/-- What a name means is filed in one of the two scopes. -/
theorem exists_table_of_get? {name : String} (h : fs.get? name = some f) :
    ∃ scope bare, (fs.table scope).get? bare = some f := by
  unfold get? at h
  split at h
  · next scope bare _ => exact ⟨scope, bare, h⟩
  · next bare _ =>
    -- a global function comes before one of the script
    rcases Option.or_eq_some_iff.mp h with h | ⟨-, h⟩
    · exact ⟨_, bare, h⟩
    · exact ⟨_, bare, h⟩

/-- Replacing the table of one scope leaves the other one alone. -/
theorem table_setTable (fs : Functions) (scope scope' : FunctionScope)
    (d : Dict DefinedFunction) :
    (fs.setTable scope d).table scope' = if scope' = scope then d else fs.table scope' := by
  cases scope <;> cases scope' <;> rfl

theorem setTable_table (fs : Functions) (scope : FunctionScope) :
    fs.setTable scope (fs.table scope) = fs := by
  cases scope <;> rfl

/-- What a name means has the property. -/
theorem Every.of_get? (h : fs.Every P) {name : String} (hf : fs.get? name = some f) : P f := by
  obtain ⟨scope, bare, hf⟩ := exists_table_of_get? hf
  exact h scope bare f hf

/-- What is filed after a definition. -/
theorem get?_define (h : fs.define f = .ok fs') (scope : FunctionScope) (name : String) :
    (fs'.table scope).get? name =
      if scope = f.function.signature.scope ∧ name = f.function.signature.name then some f
      else (fs.table scope).get? name := by
  simp only [Functions.define] at h
  split at h
  · cases h
  · split at h
    · cases h
    · cases h
      -- neither the check of the name nor that for an earlier function files anything
      rw [table_setTable]
      by_cases hscope : scope = f.function.signature.scope
      · subst hscope
        simp only [true_and, if_true, Dict.get?_insert]
      · simp only [hscope, false_and, if_false]

/-- Where the function with a name is removed from. -/
def removedPlace (name : String) : FunctionScope × String :=
  ((FunctionScope.split name).1.getD .globals, (FunctionScope.split name).2)

/-- What is filed after a removal. -/
theorem get?_remove (fs : Functions) (name : String) (scope : FunctionScope) (bare : String) :
    ((fs.remove name).2.table scope).get? bare =
      if scope = (removedPlace name).1 ∧ bare = (removedPlace name).2 then none
      else (fs.table scope).get? bare := by
  -- a name without a scope is taken for that of a global function
  change ((fs.setTable (removedPlace name).1 _).table scope).get? bare = _
  rw [table_setTable]
  by_cases hscope : scope = (removedPlace name).1
  · subst hscope
    by_cases hbare : bare = (removedPlace name).2
    · subst hbare
      simp only [true_and, if_true]
      exact Dict.get?_erase_self _ _
    · simp only [hbare, and_false, if_true, if_false]
      exact Dict.get?_erase_ne _ hbare
  · simp only [hscope, false_and, if_false]

/-- A definition keeps the property if what it files has it. -/
theorem Every.define (h : fs.Every P) (hf : P f) (hfs' : fs.define f = .ok fs') :
    fs'.Every P := by
  intro scope name g hg
  rw [get?_define hfs'] at hg
  split at hg
  · cases hg
    exact hf
  · exact h _ _ _ hg

/-- A removal files nothing. -/
theorem Every.remove (h : fs.Every P) (name : String) : (fs.remove name).2.Every P := by
  intro scope bare g hg
  rw [get?_remove] at hg
  split at hg
  · cases hg
  · exact h _ _ _ hg

end Functions

end ModalScript
