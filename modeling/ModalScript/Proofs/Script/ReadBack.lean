/-
Whether a variable that has been written is read back.

A name without a scope is looked for in three orders: reading tries the local variables of
the running function, its arguments, the captured variables, the global ones and those of
the editor; an assignment changes the local variables, or the captured ones if only these
have the name; a removal tries the local variables alone.  The three agree unless the
assignment goes to captured variables (`WritesThrough`): then an argument of the same name
hides what was written, and the removal does not find it.

Main result: `readsBack_of_store`, for all variables, all names and all values.  It says
when a name reads back and what happens else; `not_readsBack_of_closure` shows the latter.
-/
import ModalScript.Proofs.Script.Variables

namespace ModalScript

namespace Variables

variable {vs vs' : Variables} {r : LocalsRef} {f : Frame} {v : VariableName} {name : String}
  {x : Value} {id : EditorId}

/-! ### One table -/

/-- A dictionary in which a name has been given a value contains it. -/
theorem contains_insert_self (d : Dict Value) (name : String) (x : Value) :
    (d.insert name x).contains name = true := by
  rw [Dict.contains, Dict.get?_insert_self, Option.isSome_some]

/-- Variables that exist are those by which they were replaced. -/
theorem localTable_setLocalTable_self (d : Dict Value) (h : r.slot < vs.localTables.size) :
    (vs.setLocalTable r d).localTable r = d := by
  simp [setLocalTable, localTable, h]

/-- Local variables in which something is found exist. -/
theorem slot_lt_of_contains (h : (vs.localTable r).contains name = true) :
    r.slot < vs.localTables.size := by
  refine Nat.lt_of_not_le fun hslot => ?_
  -- where there are no local variables none is found
  have hempty : vs.localTable r = .empty := by
    rw [localTable, Array.getElem?_eq_none hslot, Option.getD_none]
  rw [hempty] at h
  cases h

/-- The running function has local variables. -/
theorem slot_lt_of_frame? (h : vs.frame? = some f) : f.locals.slot < vs.localTables.size :=
  vs.allocated f (List.mem_of_head? h)

theorem localTable_setLocal_self (h : r.slot < vs.localTables.size) :
    (vs.setLocal r name x).localTable r = (vs.localTable r).insert name x :=
  localTable_setLocalTable_self _ h

/-! ### What is kept for each editor -/

/-- What has been set for an editor is read for this editor. -/
theorem get?_insertFor_self (m : PerEditor (Dict Value)) (id : EditorId) (name : String)
    (x : Value) : ((insertFor m id name x).get? id).bind (·.get? name) = some x := by
  rw [insertFor, PerEditor.get?_set_self, Option.bind_some, Dict.get?_insert_self]

/-- What has been set for an editor is found when it is removed. -/
theorem removeFor_insertFor_self (m : PerEditor (Dict Value)) (id : EditorId) (name : String)
    (x : Value) : (removeFor (insertFor m id name x) id name).1 = true := by
  simp only [removeFor, insertFor, PerEditor.get?_set_self]
  exact contains_insert_self _ name x

/-! ### Reading back -/

/-- The variable has the value, and removing it finds it, unless it is one of those that
cannot be removed at all. -/
def ReadsBack (vs : Variables) (v : VariableName) (x : Value) (id : EditorId) : Prop :=
  vs.get? v id = some x ∧
    (v.scope ≠ some .builtins → (vs.remove v id).map (·.1) = .ok true)

/-- An assignment goes to captured variables: the name has no scope, and in the running
function it names a captured variable and no local one. -/
structure WritesThrough (vs : Variables) (v : VariableName) (f : Frame) (r : LocalsRef) :
    Prop where
  unscoped : v.scope = none
  running : vs.frame? = some f
  captured : f.captured = some r
  not_local : (vs.localTable f.locals).contains v.name = false
  found : (vs.localTable r).contains v.name = true

/-- Unless it goes to captured variables, an assignment without a scope changes the local
variables of the running function. -/
theorem assignedLocals_of_not_writesThrough (hf : vs.frame? = some f)
    (h : ∀ f r, ¬ vs.WritesThrough ⟨none, name⟩ f r) : vs.assignedLocals f name = f.locals := by
  unfold assignedLocals
  cases hcaptured : f.captured with
  | none => rfl
  | some r =>
    have hown : ¬ (¬ (vs.localTable f.locals).contains name ∧
        (vs.localTable r).contains name) := by
      rintro ⟨hlocal, hr⟩
      exact h f r ⟨rfl, hf, hcaptured, Bool.eq_false_iff.mpr hlocal, hr⟩
    exact if_neg hown

theorem WritesThrough.assignedLocals_eq (h : vs.WritesThrough v f r) :
    vs.assignedLocals f v.name = r := by
  have hthrough : ¬ (vs.localTable f.locals).contains v.name ∧
      (vs.localTable r).contains v.name := ⟨Bool.eq_false_iff.mp h.not_local, h.found⟩
  simp only [assignedLocals, h.captured, if_pos hthrough]

/-! ### Assignments that read back -/

/-- A local variable of the running function reads back, with its scope and without. -/
theorem readsBack_setLocal (hf : vs.frame? = some f)
    (hscope : v.scope = none ∨ v.scope = some .locals) :
    (vs.setLocal f.locals v.name x).ReadsBack v x id := by
  obtain ⟨scope, name⟩ := v
  have htable : ((vs.setLocal f.locals name x).localTable f.locals).get? name = some x := by
    rw [localTable_setLocal_self (slot_lt_of_frame? hf), Dict.get?_insert_self]
  have hframe : (vs.setLocal f.locals name x).frame? = some f := hf
  have hfound : ((vs.setLocal f.locals name x).localTable f.locals).contains name = true := by
    rw [Dict.contains, htable, Option.isSome_some]
  -- reading looks at the local variables first, so that nothing hides the new value
  rcases hscope with rfl | rfl
  · refine ⟨?_, fun _ => ?_⟩
    · simp only [get?, hframe, Option.bind_some, inFrame?, htable, Option.some_or]
    · simp only [remove, hframe, removeLocal, hfound, Except.map]
  · refine ⟨?_, fun _ => ?_⟩
    · simp only [get?, hframe, Option.bind_some, htable]
    · simp only [remove, hframe, removeLocal, hfound, Except.map]

/-- Where no function is running, a name without a scope is a global one. -/
theorem readsBack_of_no_frame (hf : vs.frame? = none)
    (h : vs.store ⟨none, name⟩ x id = .ok vs') : vs'.ReadsBack ⟨none, name⟩ x id := by
  simp only [store, hf] at h
  cases h
  have hframe : frame? { vs with globals := vs.globals.insert name x } = none := hf
  refine ⟨?_, fun _ => ?_⟩
  · simp only [get?, hframe, Option.bind_none, Option.none_or, Dict.get?_insert_self,
      Option.some_or]
  · simp only [remove, hframe, contains_insert_self, Except.map]

/-- A name with a scope reads back. -/
theorem readsBack_of_scope {scope : VariableScope}
    (h : vs.store ⟨some scope, name⟩ x id = .ok vs') :
    vs'.ReadsBack ⟨some scope, name⟩ x id := by
  cases scope with
  | globals | script =>
    cases h
    refine ⟨Dict.get?_insert_self _ name x, fun _ => ?_⟩
    simp only [remove, contains_insert_self, Except.map]
  | buffer | window | tab =>
    cases h
    refine ⟨get?_insertFor_self _ id name x, fun _ => ?_⟩
    simp only [remove, removeFor_insertFor_self, Except.map]
  | arguments => cases h
  | locals =>
    cases hf : vs.frame? with
    | none =>
      simp only [store, hf] at h
      cases h
    | some f =>
      simp only [store, hf] at h
      cases h
      exact readsBack_setLocal (v := ⟨some .locals, name⟩) hf (Or.inr rfl)
  | builtins =>
    simp only [store] at h
    split at h
    · cases h
      -- built-in variables cannot be removed
      exact ⟨Dict.get?_insert_self _ name x, fun hscope => absurd rfl hscope⟩
    · cases h

/-- All else reads back, with a scope and without, in a function and outside. -/
theorem readsBack_of_not_writesThrough (h : vs.store v x id = .ok vs')
    (hown : ∀ f r, ¬ vs.WritesThrough v f r) : vs'.ReadsBack v x id := by
  obtain ⟨scope, name⟩ := v
  cases scope with
  | some scope => exact readsBack_of_scope h
  | none =>
    cases hf : vs.frame? with
    | none => exact readsBack_of_no_frame hf h
    | some f =>
      simp only [store, hf, assignedLocals_of_not_writesThrough hf hown] at h
      cases h
      exact readsBack_setLocal (v := ⟨none, name⟩) hf (Or.inl rfl)

/-! ### Assignments that are written through -/

/-- A name that was written through is read as the argument that hides it, or else as the
new value, and is not found by a removal. -/
theorem WritesThrough.get?_store (h : vs.WritesThrough v f r) (hstore : vs.store v x id = .ok vs') :
    (vs'.localTable r).get? v.name = some x ∧
      vs'.get? v id = (f.arguments.get? v.name).or (some x) ∧
      (vs'.remove v id).map (·.1) = .ok false := by
  obtain rfl : vs.setLocal r v.name x = vs' := by
    simp only [store, h.unscoped, h.running, h.assignedLocals_eq] at hstore
    exact Except.ok.inj hstore
  have hcell : ((vs.setLocal r v.name x).localTable r).get? v.name = some x := by
    rw [localTable_setLocal_self (slot_lt_of_contains h.found), Dict.get?_insert_self]
  -- the captured variables are not the function's own, which lack the name
  have hne : f.locals ≠ r := by
    intro he
    have hfound := h.found
    rw [← he, h.not_local] at hfound
    cases hfound
  have hown : (vs.setLocal r v.name x).localTable f.locals = vs.localTable f.locals :=
    localTable_setLocalTable_ne vs _ hne
  have hnone : (vs.localTable f.locals).get? v.name = none :=
    Option.isNone_iff_eq_none.mp (Option.isSome_eq_false_iff.mp h.not_local)
  have hframe : (vs.setLocal r v.name x).frame? = some f := h.running
  refine ⟨hcell, ?_, ?_⟩
  · simp only [get?, h.unscoped, hframe, Option.bind_some, inFrame?, hown, hnone, Option.none_or,
      h.captured, hcell]
    cases f.arguments.get? v.name <;> rfl
  · simp only [remove, h.unscoped, hframe, removeLocal, hown, h.not_local, Except.map]

/-- **Variables read back what was written** just when the assignment does not go to captured
variables.  If it does, these have the new value, but an argument of the same name hides it,
and a removal does not find the name. -/
theorem readsBack_of_store (h : vs.store v x id = .ok vs') :
    (vs'.ReadsBack v x id ↔ ∀ f r, ¬ vs.WritesThrough v f r) ∧
      ∀ f r, vs.WritesThrough v f r →
        (vs'.localTable r).get? v.name = some x ∧
          vs'.get? v id = (f.arguments.get? v.name).or (some x) ∧
          (vs'.remove v id).map (·.1) = .ok false := by
  refine ⟨⟨?_, readsBack_of_not_writesThrough h⟩, fun f r hthrough => hthrough.get?_store h⟩
  rintro ⟨-, hremove⟩ f r hthrough
  have hscope : v.scope ≠ some .builtins := by
    rw [hthrough.unscoped]
    exact (Option.some_ne_none _).symm
  -- the removal does not find what was written through
  have hlost := (hthrough.get?_store h).2.2
  rw [hremove hscope] at hlost
  cases hlost

/-- A local variable of a running function that has captured nothing. -/
theorem readsBack_of_local_assignment :
    ∃ vs, (initial.push "F" none).store ⟨none, "x"⟩ (.integer 1) ⟨0⟩ = .ok vs ∧
      vs.ReadsBack ⟨none, "x"⟩ (.integer 1) ⟨0⟩ := by
  obtain ⟨vs, hstore⟩ :
      ∃ vs, (initial.push "F" none).store ⟨none, "x"⟩ (.integer 1) ⟨0⟩ = .ok vs := ⟨_, rfl⟩
  refine ⟨vs, hstore, (readsBack_of_store hstore).1.mpr ?_⟩
  rintro f r ⟨-, hf, hcaptured, -⟩
  cases hf
  cases hcaptured

/-- A function assigns a name that it has both as an argument and as a captured variable:
the captured variable gets the new value, the name still has that of the argument, and
there is nothing to remove. -/
theorem not_readsBack_of_closure :
    ∃ outer inner vs : Variables,
      (initial.push "Outer" none).store ⟨none, "x"⟩ (.integer 1) ⟨0⟩ = .ok outer ∧
      inner = (outer.push "Inner" (some ⟨0⟩)).bindArgument "x" (.integer 2) ∧
      inner.store ⟨none, "x"⟩ (.integer 5) ⟨0⟩ = .ok vs ∧
      (vs.localTable ⟨0⟩).get? "x" = some (.integer 5) ∧
      vs.get? ⟨none, "x"⟩ ⟨0⟩ = some (.integer 2) ∧
      (vs.remove ⟨none, "x"⟩ ⟨0⟩).map (·.1) = .ok false :=
  ⟨_, _, _, rfl, rfl, rfl, rfl, rfl, rfl⟩

end Variables

end ModalScript
