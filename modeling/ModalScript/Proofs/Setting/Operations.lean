/-
What each operation on the settings does.

The operations are taken apart here once: making an editor known and storing a value are said by
what the values of each editor are afterwards (`get?_register`, `get?_store_editor`), and adding
a listener or a declaration by what has been the case when it was possible (`listen_eq_ok`,
`declare_eq_ok`).  What is not mentioned is left alone.
-/
import ModalScript.Setting.Store

namespace ModalScript

namespace SettingDeclaration

/-- Whether a setting is kept for each editor. -/
def isPerEditor (d : SettingDeclaration) : Bool :=
  d.kind = .perEditor

theorem answersTo_name (d : SettingDeclaration) : d.answersTo d.name := by
  simp [answersTo]

/-- Only a setting that is kept per editor is kept for an editor. -/
theorem effectiveScope_editor {d : SettingDeclaration} {scope : SettingScope} {id : EditorId}
    (h : d.effectiveScope scope = .editor id) : d.kind = .perEditor ∧ scope = .editor id := by
  cases scope with
  | shared => cases h
  | editor id' =>
    cases hk : d.kind with
    | shared => simp [effectiveScope, hk] at h
    | perEditor => simpa [effectiveScope, hk] using h

end SettingDeclaration

namespace Settings

variable {s t : Settings} {d d' : SettingDeclaration} {name : String} {scope : SettingScope}
  {v : SettingValue}

/-! ### Looking up -/

theorem declaration?_eq_ok_iff :
    s.declaration? name = .ok d ↔ s.declarations.find? (·.answersTo name) = some d := by
  unfold declaration?
  cases s.declarations.find? (·.answersTo name) <;> simp

theorem mem_of_declaration? (h : s.declaration? name = .ok d) : d ∈ s.declarations :=
  List.mem_of_find?_eq_some (declaration?_eq_ok_iff.mp h)

/-! ### The values of a new editor -/

/-- The settings kept for each editor. -/
def perEditor (s : Settings) : List SettingDeclaration :=
  s.declarations.filter (·.isPerEditor)

theorem mem_perEditor_iff :
    d ∈ s.perEditor ↔ d ∈ s.declarations ∧ d.kind = .perEditor := by
  simp [perEditor, SettingDeclaration.isPerEditor]

section Copies

variable {f : SettingDeclaration → SettingValue} {ds : List SettingDeclaration}
  {vs : Dict SettingValue}

/-- Nothing is inserted under a name that no declaration has. -/
theorem get?_foldl_insert_of_notMem (h : name ∉ ds.map (·.name)) :
    (ds.foldl (fun vs d => vs.insert d.name (f d)) vs).get? name = vs.get? name := by
  induction ds generalizing vs with
  | nil => rfl
  | cons d ds ih =>
    rw [List.map_cons, List.mem_cons, not_or] at h
    rw [List.foldl_cons, ih h.2, Dict.get?_insert_ne _ _ h.1]

/-- A value that has been inserted for a declaration stays, as all the others have other names. -/
theorem get?_foldl_insert_of_mem (hnodup : (ds.map (·.name)).Nodup)
    (hd : d ∈ ds) :
    (ds.foldl (fun vs d => vs.insert d.name (f d)) vs).get? d.name = some (f d) := by
  induction ds generalizing vs with
  | nil => cases hd
  | cons d' ds ih =>
    rw [List.map_cons, List.nodup_cons] at hnodup
    rw [List.foldl_cons]
    rcases List.mem_cons.mp hd with rfl | hd
    · rw [get?_foldl_insert_of_notMem hnodup.1, Dict.get?_insert_self]
    · exact ih hnodup.2 hd

end Copies

/-! ### Making an editor known -/

/-- The values an editor has, or would be given if it were made known. -/
def valuesOf (s : Settings) (id : EditorId) : Dict SettingValue :=
  (s.own.get? id).getD s.initialValues

/-- Making an editor known gives it values, if it has none, and no other editor. -/
theorem get?_register (s : Settings) (id id' : EditorId) :
    (s.register id).own.get? id' = if id' = id then some (s.valuesOf id) else s.own.get? id' := by
  unfold register valuesOf
  cases h : s.own.get? id with
  -- an editor that is known keeps what it has
  | some vs =>
    show s.own.get? id' = if id' = id then some vs else s.own.get? id'
    split
    · next hid => rw [hid, h]
    · rfl
  | none => exact PerEditor.get?_set s.own id id' s.initialValues

/-- Nothing but own values is touched. -/
theorem register_eq (s : Settings) (id : EditorId) :
    s.register id = { s with own := (s.register id).own } := by
  unfold register
  split <;> rfl

/-! ### Storing a value -/

/-- What storing a value for an editor does to the own values. -/
theorem get?_store_editor (s : Settings) (d : SettingDeclaration) (id id' : EditorId)
    (v : SettingValue) :
    (s.store d (.editor id) v).own.get? id' =
      if id' = id then some ((s.valuesOf id).insert d.name v) else s.own.get? id' := by
  simp only [store, PerEditor.get?_set, get?_register, if_true, Option.getD_some]
  split <;> rfl

theorem store_editor (s : Settings) (d : SettingDeclaration) (id : EditorId) (v : SettingValue) :
    s.store d (.editor id) v = { s with own := (s.store d (.editor id) v).own } := by
  simp only [store]
  -- making the editor known touches own values only, and so does the value that is put there
  rw [register_eq]

/-- Nothing but values is touched. -/
theorem store_eq (s : Settings) (d : SettingDeclaration) (place : SettingScope)
    (v : SettingValue) :
    s.store d place v =
      { s with shared := (s.store d place v).shared, own := (s.store d place v).own } := by
  cases place with
  | shared => rfl
  | editor id => rw [store_editor]

section

variable (s : Settings) (d d' : SettingDeclaration) (place : SettingScope) (v : SettingValue)

theorem declarations_store : (s.store d place v).declarations = s.declarations := by
  rw [store_eq]

theorem listeners_store : (s.store d place v).listeners = s.listeners := by
  rw [store_eq]

theorem listenersOf_store : (s.store d place v).listenersOf d' = s.listenersOf d' := by
  rw [listenersOf, listenersOf, listeners_store]

theorem audience_store : (s.store d place v).audience = s.audience := by
  rw [store_eq]

/-- A value is read where it is stored. -/
theorem valueAt_store : (s.store d place v).valueAt d place = v := by
  cases place with
  | shared =>
    show ((s.shared.insert d.name v).get? d.name).getD d.default = v
    rw [Dict.get?_insert_self, Option.getD_some]
  | editor id =>
    rw [valueAt, get?_store_editor, if_pos rfl, Option.bind_some, Dict.get?_insert_self,
      Option.getD_some]

end

/-- The shared values of other settings stay. -/
theorem sharedValue_store_of_ne (hname : d'.name ≠ d.name) (s : Settings)
    (place : SettingScope) (v : SettingValue) :
    (s.store d place v).sharedValue d' = s.sharedValue d' := by
  cases place with
  | shared =>
    show ((s.shared.insert d.name v).get? d'.name).getD d'.default = _
    rw [Dict.get?_insert_ne _ v hname]
    rfl
  | editor id =>
    rw [store_editor]
    rfl

/-- A value that is committed is read afterwards. -/
theorem get_notify_store (hd : s.declaration? name = .ok d) (change : SettingChange) :
    ((s.store d (d.effectiveScope scope) v).notify d change).2.get scope name = .ok v := by
  have hlookup : ((s.store d (d.effectiveScope scope) v).notify d change).2.declaration? name =
      .ok d := by
    have hdeclarations : ((s.store d (d.effectiveScope scope) v).notify d change).2.declarations =
        s.declarations := declarations_store ..
    rw [← hd, declaration?, declaration?, hdeclarations]
  rw [get, hlookup]
  exact congrArg Except.ok (valueAt_store s d (d.effectiveScope scope) v)

/-! ### Adding listeners and declarations -/

/-- A listener is added to a setting that exists, behind all others. -/
theorem listen_eq_ok {l : Listener} (h : s.listen name l = .ok t) :
    ∃ d, s.declaration? name = .ok d ∧
      t = { s with listeners := s.listeners ++ [(d.name, l)] } := by
  unfold listen at h
  cases hd : s.declaration? name with
  | error e =>
    rw [hd] at h
    cases h
  | ok d =>
    rw [hd] at h
    exact ⟨d, rfl, (Except.ok.inj h).symm⟩

/-- A declaration is added only if its names mean nothing yet. -/
theorem declare_eq_ok (h : s.declare d = .ok t) :
    (∀ name, d.answersTo name → ∀ d' ∈ s.declarations, d'.answersTo name = false) ∧
      t = { s with
        declarations := s.declarations ++ [d]
        shared := s.shared.insert d.name d.default
        own :=
          match d.kind with
          | .shared => s.own
          | .perEditor => s.own.map (·.insert d.name d.default) } := by
  unfold declare at h
  cases htaken : (d.name :: d.abbreviation.toList).find? s.isTaken with
  | some name => simp [htaken] at h
  | none =>
    simp only [htaken, Except.ok.injEq] at h
    refine ⟨fun name hname d' hd' => ?_, h.symm⟩
    -- a name that the new declaration answers to is one of the two that were tried
    have hmem : name ∈ d.name :: d.abbreviation.toList := by
      simp only [SettingDeclaration.answersTo, Bool.or_eq_true, beq_iff_eq] at hname
      rcases hname with rfl | habbr
      · exact List.mem_cons_self
      · simp [habbr]
    have hfree := List.find?_eq_none.mp htaken name hmem
    simp only [isTaken, List.any_eq_true, not_exists, not_and, Bool.not_eq_true] at hfree
    exact hfree d' hd'

end Settings

end ModalScript
