/-
Which function a name removes.

Each function is filed under its own scope and name, and a global function has a name that begins
with an uppercase character (`Functions.Filed`).  So the name of a function with its scope in front
of it means that function and no other (`Filed.get?_qualifiedName`).

To look for a function and to remove one is the same for all names but one kind: a name without a
scope means a global function, or else one of the script, where it is looked for; but it only means
a global function where it is removed.  So a function of the script that is found by its bare name
(`Functions.FallsBack`) is not removed by it, as if there were no such function.

Main result: `Functions.remove_of_reachable`.
-/
import ModalScript.Proofs.Script.Registry
import ModalScript.Script.Execute

namespace ModalScript

namespace Functions

variable {fs fs' : Functions} {f : DefinedFunction} {name : String}

/-! ### Where functions are filed -/

/-- Registries that come about by definitions and removals, in any order. -/
inductive Reachable : Functions → Prop
  | empty : Reachable .empty
  | define {fs fs' : Functions} {f : DefinedFunction} :
      Reachable fs → fs.define f = .ok fs' → Reachable fs'
  | remove {fs : Functions} (name : String) : Reachable fs → Reachable (fs.remove name).2

/-- Each function is filed under its own scope and name, and the names of global functions begin
with uppercase characters. -/
def Filed (fs : Functions) : Prop :=
  ∀ scope name f, (fs.table scope).get? name = some f →
    (f.function.signature.scope = scope ∧ f.function.signature.name = name) ∧
      (scope = .globals → startsUppercase name = true)

theorem Filed.empty : Filed .empty := by
  intro scope name f hf
  cases scope <;> cases hf

/-- A global function whose name does not begin with an uppercase character is refused. -/
theorem startsUppercase_of_define (h : fs.define f = .ok fs')
    (hscope : f.function.signature.scope = .globals) :
    startsUppercase f.function.signature.name = true := by
  simp only [Functions.define] at h
  split at h
  · cases h
  · next hname =>
    rw [not_and, Bool.not_eq_true, Bool.not_eq_false] at hname
    exact hname hscope

/-- A definition files the function under its own scope and name. -/
theorem Filed.define (hfs : fs.Filed) (h : fs.define f = .ok fs') : fs'.Filed := by
  intro scope name g hg
  rw [get?_define h] at hg
  split at hg
  · next hplace =>
    obtain ⟨rfl, rfl⟩ := hplace
    cases hg
    exact ⟨⟨rfl, rfl⟩, startsUppercase_of_define h⟩
  · exact hfs scope name g hg

/-- A removal files nothing. -/
theorem Filed.remove (hfs : fs.Filed) (name : String) : (fs.remove name).2.Filed := by
  intro scope bare g hg
  rw [get?_remove] at hg
  split at hg
  · cases hg
  · exact hfs scope bare g hg

/-- So it is in all registries that come about. -/
theorem Reachable.filed (h : fs.Reachable) : fs.Filed := by
  induction h with
  | empty => exact .empty
  | define _ hdefine ih => exact ih.define hdefine
  | remove name _ ih => exact ih.remove name

/-! ### What names mean -/

/-- Behind a name that begins with an uppercase character there is no scope. -/
theorem split_of_startsUppercase (h : startsUppercase name = true) :
    FunctionScope.split name = (none, name) := by
  -- the marks of the scopes begin with lowercase characters
  unfold startsUppercase at h
  unfold FunctionScope.split
  split
  · next hname =>
    rw [hname] at h
    exact absurd h (show ¬Text.isUppercase 's' = true by decide)
  · next hname =>
    rw [hname] at h
    exact absurd h (show ¬Text.isUppercase 'g' = true by decide)
  · rfl

/-- The mark of a scope in front of a name is taken off. -/
theorem split_of_script (name : String) :
    FunctionScope.split (FunctionScope.script.mark ++ name) = (some .script, name) := by
  have hname : (FunctionScope.script.mark ++ name).toList = 's' :: ':' :: name.toList := by
    rw [String.toList_append]
    rfl
  simp only [FunctionScope.split, hname, String.ofList_toList]

/-- Each function is found by its name with its scope. -/
theorem Filed.get?_qualifiedName (hfs : fs.Filed) {scope : FunctionScope}
    (hf : (fs.table scope).get? name = some f) :
    fs.get? f.function.signature.qualifiedName = some f := by
  obtain ⟨⟨hscope, hname⟩, huppercase⟩ := hfs scope name f hf
  rw [Signature.qualifiedName, hscope, hname, get?]
  cases scope with
  | globals =>
    -- the mark of the global scope is empty, and the name itself must not look like a mark
    have hsplit : FunctionScope.split (FunctionScope.globals.mark ++ name) = (none, name) := by
      rw [FunctionScope.mark, String.empty_append]
      exact split_of_startsUppercase (huppercase rfl)
    rw [hsplit]
    simp only [hf, Option.some_or]
  | script =>
    rw [split_of_script]
    exact hf

/-! ### Removal -/

/-- The name has no scope, and means a function of the script as there is no global one. -/
def FallsBack (fs : Functions) (name : String) : Prop :=
  (FunctionScope.split name).1 = none ∧
    fs.globals.get? (FunctionScope.split name).2 = none ∧
      (fs.script.get? (FunctionScope.split name).2).isSome = true

/-- Where a name is looked for in comparison with where it is removed from. -/
theorem get?_eq (fs : Functions) (name : String) :
    fs.get? name =
      ((fs.table (removedPlace name).1).get? (removedPlace name).2).or
        (if (FunctionScope.split name).1 = none then fs.script.get? (FunctionScope.split name).2
        else none) := by
  unfold get? removedPlace
  split
  · next scope bare hsplit =>
    rw [hsplit]
    exact Option.or_none.symm
  · next bare hsplit =>
    rw [hsplit]
    rfl

/-- A removal answers whether there was a function in its place. -/
theorem fst_remove (fs : Functions) (name : String) :
    (fs.remove name).1 =
      ((fs.table (removedPlace name).1).get? (removedPlace name).2).isSome :=
  rfl

/-- Only what is found is removed. -/
theorem exists_of_remove (h : (fs.remove name).1 = true) :
    ∃ f, (fs.table (removedPlace name).1).get? (removedPlace name).2 = some f ∧
      fs.get? name = some f := by
  rw [fst_remove] at h
  obtain ⟨f, hf⟩ := Option.isSome_iff_exists.mp h
  exact ⟨f, hf, by rw [get?_eq, hf, Option.some_or]⟩

/-- A name falls back just if the function it means is found and not removed. -/
theorem fallsBack_iff :
    fs.FallsBack name ↔ (fs.get? name).isSome = true ∧ (fs.remove name).1 = false := by
  rw [fst_remove, Option.isSome_eq_false_iff, Option.isNone_iff_eq_none, get?_eq, FallsBack]
  rcases hsplit : FunctionScope.split name with ⟨scope? | scope, bare⟩
  · -- a name without a scope is looked for in both, and removed from the global functions
    have hplace : removedPlace name = (.globals, bare) := by
      rw [removedPlace, hsplit]
      rfl
    simp only [hplace, table, true_and, if_true]
    rw [and_comm]
    refine and_congr_left fun hnone => ?_
    rw [hnone, Option.none_or]
  · simp only [reduceCtorEq, false_and, if_false, Option.or_none, false_iff, not_and]
    intro hsome hnone
    rw [hnone] at hsome
    cases hsome

/-- A removal that finds nothing changes nothing. -/
theorem remove_eq_self (h : (fs.remove name).1 = false) : (fs.remove name).2 = fs := by
  rw [fst_remove, Option.isSome_eq_false_iff, Option.isNone_iff_eq_none] at h
  have hremove : (fs.remove name).2 = fs.setTable (removedPlace name).1
      ((fs.table (removedPlace name).1).erase (removedPlace name).2) := rfl
  rw [hremove, Dict.erase_of_get?_eq_none h, setTable_table]

/-! ### Definition -/

/-- A definition that is refused changes nothing at all. -/
theorem eq_of_defineFunction_failed {s t : State} {signature : Signature} {body : List Statement}
    {e : ExecError} (h : defineFunction signature body s = (.failed e, t)) : t = s := by
  simp only [defineFunction] at h
  -- all that may be refused is checked before the registry is replaced
  split at h
  · cases h
  · cases h
    rfl

/-- **What a name removes.**  In every registry that comes about by definitions and removals, a name
removes a function just if it is found, unless the name falls back to a function of the script.
What it removes is the function that is found, and no other; otherwise nothing is removed.  Each
function is found by its name with its scope, and a definition that is refused changes nothing. -/
theorem remove_of_reachable (h : fs.Reachable) (name : String) :
    (((fs.remove name).1 = true ↔ (fs.get? name).isSome = true) ↔ ¬fs.FallsBack name) ∧
    ((fs.remove name).1 = true → ∃ f, fs.get? name = some f ∧
      ∀ scope bare, ((fs.remove name).2.table scope).get? bare =
        if scope = f.function.signature.scope ∧ bare = f.function.signature.name then none
        else (fs.table scope).get? bare) ∧
    ((fs.remove name).1 = false → (fs.remove name).2 = fs) ∧
    (∀ scope bare f, (fs.table scope).get? bare = some f →
      fs.get? f.function.signature.qualifiedName = some f) ∧
    ∀ (s t : State) (signature : Signature) (body : List Statement) (e : ExecError),
      defineFunction signature body s = (.failed e, t) → t = s := by
  refine ⟨?_, ?_, remove_eq_self, fun scope bare f => h.filed.get?_qualifiedName,
    fun s t signature body e => eq_of_defineFunction_failed⟩
  · rw [fallsBack_iff, not_and, Bool.not_eq_false]
    refine ⟨Iff.mpr, fun hfound => ⟨fun hremoved => ?_, hfound⟩⟩
    obtain ⟨f, -, hf⟩ := exists_of_remove hremoved
    rw [hf]
    rfl
  · intro hremoved
    obtain ⟨f, hplace, hf⟩ := exists_of_remove hremoved
    -- the place that the name means is the one under which the function is filed
    obtain ⟨⟨hscope, hname⟩, -⟩ := h.filed _ _ f hplace
    refine ⟨f, hf, fun scope bare => ?_⟩
    rw [get?_remove, hscope, hname]

/-- A function without parameters that does nothing. -/
def idle (name : String) : DefinedFunction :=
  { function := { signature := .named name, body := [] }, captured := none }

/-- A global function and one of the script with the same name: the bare name removes the global
one, and the other is found by its name with its scope. -/
theorem remove_of_reachable_of_both :
    ∃ fs : Functions, fs.Reachable ∧ ¬fs.FallsBack "F" ∧ (fs.remove "F").1 = true ∧
      ((fs.remove "F").2.table .globals).get? "F" = none ∧
      ((fs.remove "F").2.table .script).get? "F" = some (idle "s:F") ∧
      fs.get? "s:F" = some (idle "s:F") := by
  obtain ⟨fs, fs', hglobal, hscript, hscripts, hfound, hremoved⟩ :
      ∃ fs fs', Functions.empty.define (idle "F") = .ok fs ∧ fs.define (idle "s:F") = .ok fs' ∧
        (fs'.table .script).get? "F" = some (idle "s:F") ∧ fs'.get? "F" = some (idle "F") ∧
        (fs'.remove "F").1 = true :=
    ⟨_, _, rfl, rfl, rfl, rfl, rfl⟩
  have hreachable : fs'.Reachable := (Reachable.empty.define hglobal).define hscript
  obtain ⟨hiff, hremove, -, hqualified, -⟩ := remove_of_reachable hreachable "F"
  obtain ⟨f, hf, hleft⟩ := hremove hremoved
  obtain rfl : idle "F" = f := Option.some.inj (hfound.symm.trans hf)
  refine ⟨fs', hreachable, hiff.mp ?_, hremoved, hleft .globals "F", ?_,
    hqualified .script "F" _ hscripts⟩
  · rw [hfound]
    exact ⟨fun _ => rfl, fun _ => hremoved⟩
  · exact (hleft .script "F").trans hscripts

/-- A function of the script that is found by its bare name but not removed by it. -/
theorem not_removed_of_fallsBack :
    ∃ fs : Functions, fs.Reachable ∧ fs.get? "helper" = some (idle "s:helper") ∧
      (fs.remove "helper").1 = false := by
  obtain ⟨fs, hdefine, hfound, hremoved⟩ :
      ∃ fs, Functions.empty.define (idle "s:helper") = .ok fs ∧
        fs.get? "helper" = some (idle "s:helper") ∧ (fs.remove "helper").1 = false :=
    ⟨_, rfl, rfl, rfl⟩
  exact ⟨fs, Reachable.empty.define hdefine, hfound, hremoved⟩

end Functions

end ModalScript
