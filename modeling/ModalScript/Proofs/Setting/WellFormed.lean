/-
The invariant of the settings.

`Settings.Keeps P` says that the shared values are one value for each declaration, that the
own values of a known editor are one value for each declaration kept per editor, that every
name and abbreviation leads to its declaration, and that all these values satisfy `P`.  Every
operation on the settings keeps this for whatever `P` the default values and the committed
values satisfy, and what is committed has the type of its setting and has passed its check.
That it has the type is proved for each kind of write (`SettingWrite.type_of_wanted`), and
there the edits need the invariant themselves, because their result has the type of the
current value.

The settings are `WellFormed` if the values are acceptable, that is, if they have the right
type and pass their checks.  `Settings.Reachable` lists what can happen to settings:
declarations, editors that come and go, listeners, and writes of all kinds, refused or not.

Main result: reachable settings are well-formed (`Reachable.wellFormed`), and what that
means for the values that are stored (`stored_values_of_reachable`).
-/
import Mathlib.Data.List.Nodup
import ModalScript.Proofs.Setting.Operations
import ModalScript.Proofs.Setting.Write

namespace ModalScript

/-- A value that a setting can have: one of its type that its check accepts. -/
def SettingDeclaration.Accepts (d : SettingDeclaration) (v : SettingValue) : Prop :=
  v.type = d.type ∧ d.check.run v = .ok ()

/-! ### Values for declarations -/

/-- The values are one for each of the declarations, under its name, and satisfy `P`. -/
structure Covers (P : SettingDeclaration → SettingValue → Prop) (vs : Dict SettingValue)
    (ds : List SettingDeclaration) : Prop where
  keys : vs.keys.Perm (ds.map (·.name))
  holds : ∀ d ∈ ds, ∀ v, vs.get? d.name = some v → P d v

namespace Covers

variable {P : SettingDeclaration → SettingValue → Prop} {vs : Dict SettingValue}
  {ds : List SettingDeclaration} {d : SettingDeclaration} {v : SettingValue}

theorem nodup_names (h : Covers P vs ds) : (ds.map (·.name)).Nodup :=
  (Dict.keys_perm_iff.mp h.keys).1

theorem isSome_iff (h : Covers P vs ds) (name : String) :
    (vs.get? name).isSome ↔ ∃ d ∈ ds, d.name = name := by
  rw [(Dict.keys_perm_iff.mp h.keys).2, List.mem_map]

theorem exists_value (h : Covers P vs ds) (hd : d ∈ ds) :
    ∃ v, vs.get? d.name = some v ∧ P d v := by
  obtain ⟨v, hv⟩ := Option.isSome_iff_exists.mp ((h.isSome_iff d.name).mpr ⟨d, hd, rfl⟩)
  exact ⟨v, hv, h.holds d hd v hv⟩

theorem holds_of_get? {name : String} (h : Covers P vs ds) (hv : vs.get? name = some v) :
    ∃ d ∈ ds, d.name = name ∧ P d v := by
  obtain ⟨d, hd, rfl⟩ := (h.isSome_iff name).mp (Option.isSome_of_eq_some hv)
  exact ⟨d, hd, rfl, h.holds d hd v hv⟩

theorem nil : Covers P .empty [] :=
  ⟨List.Perm.nil, fun _ hd => absurd hd List.not_mem_nil⟩

/-- Another such value for one of the declarations. -/
theorem replace (h : Covers P vs ds) (hd : d ∈ ds) (hv : P d v) :
    Covers P (vs.insert d.name v) ds := by
  refine ⟨Dict.keys_perm_iff.mpr ⟨h.nodup_names, fun k => ?_⟩, fun d' hd' w hw => ?_⟩
  · rw [← (Dict.keys_perm_iff.mp h.keys).2, Dict.get?_insert]
    split
    · next hk =>
      rw [hk, (h.isSome_iff d.name)]
      simpa using ⟨d, hd, rfl⟩
    · rfl
  · rw [Dict.get?_insert] at hw
    split at hw
    · next hname =>
      -- two declarations with the name of the value would be one
      obtain rfl := List.inj_on_of_nodup_map h.nodup_names hd' hd hname
      cases hw
      exact hv
    · exact h.holds d' hd' w hw

/-- A value for one more declaration. -/
theorem add (h : Covers P vs ds) (hd : d.name ∉ ds.map (·.name)) (hv : P d v) :
    Covers P (vs.insert d.name v) (ds ++ [d]) := by
  have hnodup : ((ds ++ [d]).map (·.name)).Nodup := by
    rw [List.map_append]
    exact h.nodup_names.append (List.nodup_singleton _)
      (List.disjoint_singleton.mpr hd)
  refine ⟨Dict.keys_perm_iff.mpr ⟨hnodup, fun k => ?_⟩, fun d' hd' w hw => ?_⟩
  · rw [Dict.get?_insert, List.map_append, List.mem_append,
      ← (Dict.keys_perm_iff.mp h.keys).2]
    split
    · next hk => simp [hk]
    · next hk => simp [hk]
  · rw [Dict.get?_insert] at hw
    split at hw
    · next hname =>
      obtain rfl := List.inj_on_of_nodup_map hnodup hd' (by simp) hname
      cases hw
      exact hv
    · next hname =>
      rcases List.mem_append.mp hd' with hd' | hd'
      · exact h.holds d' hd' w hw
      · exact absurd (congrArg (·.name) (List.mem_singleton.mp hd')) hname

/-- Values for several more declarations. -/
theorem addAll (f : SettingDeclaration → SettingValue) {new : List SettingDeclaration}
    (h : Covers P vs ds) (hnodup : ((ds ++ new).map (·.name)).Nodup)
    (hf : ∀ d ∈ new, P d (f d)) :
    Covers P (new.foldl (fun vs d => vs.insert d.name (f d)) vs) (ds ++ new) := by
  induction new generalizing vs ds with
  | nil => simpa using h
  | cons d new ih =>
    -- the names of all that come are different, those of what is there included
    have hd : d.name ∉ ds.map (·.name) := by
      rw [List.map_append, List.map_cons] at hnodup
      intro hmem
      exact (List.disjoint_of_nodup_append hnodup) hmem List.mem_cons_self
    rw [List.append_cons] at hnodup ⊢
    exact ih (h.add hd (hf d List.mem_cons_self)) hnodup
      fun d' hd' => hf d' (List.mem_cons_of_mem _ hd')

end Covers

/-! ### The invariant -/

namespace Settings

/-- The invariant of the settings: every value is filed under its setting and satisfies `P`. -/
structure Keeps (P : SettingDeclaration → SettingValue → Prop) (s : Settings) : Prop where
  /-- There is exactly one shared value for each declaration. -/
  shared : Covers P s.shared s.declarations
  /-- A known editor has a value for exactly the settings kept per editor. -/
  own : ∀ id vs, s.own.get? id = some vs → Covers P vs s.perEditor
  /-- Every name and abbreviation leads to its declaration. -/
  resolves : ∀ d ∈ s.declarations, ∀ name, d.answersTo name → s.declaration? name = .ok d

/-- The settings have acceptable values. -/
def WellFormed (s : Settings) : Prop :=
  s.Keeps SettingDeclaration.Accepts

namespace Keeps

variable {P : SettingDeclaration → SettingValue → Prop} {s t : Settings}
  {d d' : SettingDeclaration}

theorem declaration?_name (h : s.Keeps P) (hd : d ∈ s.declarations) :
    s.declaration? d.name = .ok d :=
  h.resolves d hd d.name d.answersTo_name

/-- Different declarations have different names. -/
theorem eq_of_name (h : s.Keeps P) (hd : d ∈ s.declarations) (hd' : d' ∈ s.declarations)
    (hname : d'.name = d.name) : d' = d :=
  List.inj_on_of_nodup_map h.shared.nodup_names hd' hd hname

theorem nodup_perEditor (h : s.Keeps P) : (s.perEditor.map (·.name)).Nodup :=
  h.shared.nodup_names.sublist (List.filter_sublist.map _)

/-- The values that a new editor is given are copies of the shared ones. -/
theorem get?_initialValues (h : s.Keeps P) (hd : d ∈ s.declarations) :
    s.initialValues.get? d.name =
      if d.kind = .perEditor then some (s.sharedValue d) else none := by
  split
  · next hkind =>
    exact get?_foldl_insert_of_mem h.nodup_perEditor (mem_perEditor_iff.mpr ⟨hd, hkind⟩)
  · next hkind =>
    -- the name might be that of another declaration, if names were not unique
    have hname : d.name ∉ s.perEditor.map (·.name) := by
      intro hmem
      obtain ⟨d', hd', hname⟩ := List.mem_map.mp hmem
      obtain rfl := h.eq_of_name hd (mem_perEditor_iff.mp hd').1 hname
      exact hkind (mem_perEditor_iff.mp hd').2
    exact (get?_foldl_insert_of_notMem hname).trans (Dict.get?_empty _)

/-! ### What is read -/

/-- The shared value is there, so that none is made up for it. -/
theorem get?_shared (h : s.Keeps P) (hd : d ∈ s.declarations) :
    s.shared.get? d.name = some (s.sharedValue d) := by
  obtain ⟨v, hv, -⟩ := h.shared.exists_value hd
  rw [sharedValue, hv, Option.getD_some]

theorem holds_sharedValue (h : s.Keeps P) (hd : d ∈ s.declarations) : P d (s.sharedValue d) :=
  h.shared.holds d hd _ (h.get?_shared hd)

/-- The current value of a setting satisfies `P`, at every scope. -/
theorem holds_current (h : s.Keeps P) (hd : d ∈ s.declarations) (scope : SettingScope) :
    P d (s.current scope d) := by
  unfold current
  cases hscope : d.effectiveScope scope with
  | shared => exact h.holds_sharedValue hd
  | editor id =>
    have hkind := (SettingDeclaration.effectiveScope_editor hscope).1
    have hmem : d ∈ s.perEditor := mem_perEditor_iff.mpr ⟨hd, hkind⟩
    cases hown : s.own.get? id with
    | none =>
      -- an editor that is not known reads the shared value
      simp only [valueAt, hown, Option.bind_none, Option.getD_none]
      exact h.holds_sharedValue hd
    | some vs =>
      obtain ⟨v, hv, hP⟩ := (h.own id vs hown).exists_value hmem
      simp only [valueAt, hown, Option.bind_some, hv, Option.getD_some]
      exact hP

/-- The values that an editor has or would be given. -/
theorem covers_valuesOf (h : s.Keeps P) (id : EditorId) : Covers P (s.valuesOf id) s.perEditor := by
  unfold valuesOf
  cases hown : s.own.get? id with
  | none =>
    exact Covers.addAll _ Covers.nil h.nodup_perEditor fun d hd =>
      h.holds_sharedValue (mem_perEditor_iff.mp hd).1
  | some vs => exact h.own id vs hown

/-! ### Each operation keeps the invariant -/

theorem empty : Keeps P .empty :=
  ⟨.nil, fun _ _ h => absurd h (by simp [Settings.empty]), fun _ hd => absurd hd List.not_mem_nil⟩

/-- It does not matter who listens, and what listeners remember. -/
theorem of_eq (h : s.Keeps P) (hdeclarations : t.declarations = s.declarations)
    (hshared : t.shared = s.shared) (hown : t.own = s.own) : t.Keeps P := by
  refine ⟨?_, ?_, ?_⟩
  · rw [hdeclarations, hshared]
    exact h.shared
  · rw [hown, perEditor, hdeclarations]
    exact h.own
  · simp only [declaration?, hdeclarations]
    exact h.resolves

theorem register (h : s.Keeps P) (id : EditorId) : (s.register id).Keeps P := by
  rw [register_eq]
  refine ⟨h.shared, fun id' vs hvs => ?_, h.resolves⟩
  -- a second registration changes nothing
  rw [get?_register] at hvs
  split at hvs
  · cases hvs
    exact h.covers_valuesOf id
  · exact h.own id' vs hvs

theorem forget (h : s.Keeps P) (id : EditorId) : (s.forget id).Keeps P := by
  refine ⟨h.shared, fun id' vs hvs => ?_, h.resolves⟩
  by_cases hid : id' = id
  · rw [hid, Settings.forget, PerEditor.get?_remove_self] at hvs
    cases hvs
  · rw [Settings.forget, PerEditor.get?_remove_ne s.own hid] at hvs
    exact h.own id' vs hvs

theorem listen (h : s.Keeps P) {name : String} {l : Listener} (ht : s.listen name l = .ok t) :
    t.Keeps P := by
  obtain ⟨d, -, rfl⟩ := listen_eq_ok ht
  exact h.of_eq rfl rfl rfl

/-- A value that satisfies `P` is stored where the setting is kept. -/
theorem store (h : s.Keeps P) (hd : d ∈ s.declarations) {v : SettingValue} (hv : P d v)
    (scope : SettingScope) : (s.store d (d.effectiveScope scope) v).Keeps P := by
  cases hscope : d.effectiveScope scope with
  | shared => exact ⟨h.shared.replace hd hv, h.own, h.resolves⟩
  | editor id =>
    have hkind := (SettingDeclaration.effectiveScope_editor hscope).1
    have hmem : d ∈ s.perEditor := mem_perEditor_iff.mpr ⟨hd, hkind⟩
    rw [store_editor]
    refine ⟨h.shared, fun id' vs hvs => ?_, h.resolves⟩
    rw [get?_store_editor] at hvs
    split at hvs
    · cases hvs
      -- what is replaced are the values of the editor, or copies if it has none
      exact (h.covers_valuesOf id).replace hmem hv
    · exact h.own id' vs hvs

/-- A new declaration takes no name away from the others. -/
theorem declare (h : s.Keeps P) (hd : P d d.default) (ht : s.declare d = .ok t) : t.Keeps P := by
  obtain ⟨hfree, rfl⟩ := declare_eq_ok ht
  have hname : d.name ∉ s.declarations.map (·.name) := by
    intro hmem
    obtain ⟨d', hd', he⟩ := List.mem_map.mp hmem
    -- a declaration that has the name would answer to it
    have hanswers := hfree d.name d.answersTo_name d' hd'
    rw [← he, d'.answersTo_name] at hanswers
    cases hanswers
  refine ⟨h.shared.add hname hd, fun id vs hvs => ?_, fun d' hd' name hn => ?_⟩
  · -- an editor is given the new setting exactly if it is kept per editor
    cases hkind : d.kind with
    | shared =>
      simp only [hkind] at hvs
      simpa [perEditor, SettingDeclaration.isPerEditor, hkind] using h.own id vs hvs
    | perEditor =>
      simp only [hkind, PerEditor.get?_map, Option.map_eq_some_iff] at hvs
      obtain ⟨vs, hown, rfl⟩ := hvs
      have hname' : d.name ∉ s.perEditor.map (·.name) :=
        fun hmem => hname ((List.filter_sublist.map _).subset hmem)
      simpa [perEditor, SettingDeclaration.isPerEditor, hkind] using
        (h.own id vs hown).add hname' hd
  · -- an old name is found before the new declaration is reached
    rcases List.mem_append.mp hd' with hold | hnew
    · have hfind := declaration?_eq_ok_iff.mp (h.resolves d' hold name hn)
      exact declaration?_eq_ok_iff.mpr (by rw [List.find?_append, hfind, Option.some_or])
    · obtain rfl := List.mem_singleton.mp hnew
      have hnone : s.declarations.find? (·.answersTo name) = none := by
        rw [List.find?_eq_none]
        intro d₀ hd₀
        rw [hfree name hn d₀ hd₀]
        exact Bool.false_ne_true
      refine declaration?_eq_ok_iff.mpr ?_
      rw [List.find?_append, hnone, Option.none_or, List.find?_singleton, hn, if_pos rfl]

end Keeps

end Settings

/-! ### The values that writes ask for -/

/-- A text is read as a value of the type that is asked for. -/
theorem Settings.type_of_parseText {d : SettingDeclaration} {t : String} {v : SettingValue}
    (h : Settings.parseText d t = .ok v) : v.type = d.type := by
  unfold Settings.parseText at h
  split at h
  · cases h
  · next hd =>
    split at h
    · cases h
      exact hd.symm
    · cases h
  · next hd =>
    cases h
    exact hd.symm
  · next hd =>
    split at h
    · cases h
      exact hd.symm
    · cases h

/-- A script value is taken as one of the type that is asked for. -/
theorem Settings.type_of_coerce {heap : Heap} {d : SettingDeclaration} {x : Value}
    {v : SettingValue} (h : Settings.coerce heap d x = .ok v) : v.type = d.type := by
  unfold Settings.coerce at h
  split at h
  -- numbers, texts and lists may be given as strings
  case h_3 | h_4 | h_5 => exact type_of_parseText h
  case h_7 r hd =>
    split at h <;> cases h
    exact hd.symm
  case h_8 => cases h
  all_goals
    next hd =>
      cases h
      exact hd.symm

/-- An edit keeps the type of the current value. -/
theorem Edit.type_of_apply {e : Edit} {d : SettingDeclaration} {current v : SettingValue}
    {operand : String} (h : e.apply d current operand = .ok v) : v.type = current.type := by
  unfold Edit.apply at h
  split at h
  · cases h
  · split at h
    · cases h
    · split at h <;> cases h
      rfl
  · cases h
    rfl
  · split at h <;> cases h
    rfl

namespace SettingWrite

theorem type_of_ofFlag {name : String} {f : Bool → Bool} {current v : SettingValue}
    (h : ofFlag name f current = .ok v) : v.type = current.type := by
  cases current <;> cases h
  rfl

/-- A write asks for a value of the setting's type, if the current value has it. -/
theorem type_of_wanted {w : SettingWrite} {name : String} {d : SettingDeclaration}
    {current v : SettingValue} (hcurrent : current.type = d.type)
    (h : w.wanted name d current = .ok v) : v.type = d.type := by
  cases w with
  | assign heap x => exact Settings.type_of_coerce h
  | value x =>
    simp only [wanted] at h
    split at h
    · next hx =>
      cases h
      exact hx
    · cases h
  | text t => exact Settings.type_of_parseText h
  | turnOn | turnOff | toggle => exact (type_of_ofFlag h).trans hcurrent
  | edit e operand => exact (Edit.type_of_apply h).trans hcurrent
  | reset =>
    cases h
    rfl

end SettingWrite

namespace Settings

/-- A write keeps what is true of all values that have the right type and pass their checks, and
of no value that has another type. -/
theorem Keeps.write {P : SettingDeclaration → SettingValue → Prop} {s : Settings}
    (htype : ∀ d v, P d v → v.type = d.type) (haccepted : ∀ d v, d.Accepts v → P d v)
    (h : s.Keeps P) (w : SettingWrite) (scope : SettingScope) (name : String) :
    (w.run scope name s).2.Keeps P := by
  refine write_induction h fun d v hd hv hcheck => ?_
  have hmem := mem_of_declaration? hd
  -- an edit has the type of the current value, and that has it by the invariant
  have hvtype : v.type = d.type :=
    SettingWrite.type_of_wanted (htype d _ (h.holds_current hmem scope)) hv
  exact (h.store hmem (haccepted d v ⟨hvtype, hcheck⟩) scope).of_eq rfl rfl rfl

/-! ### Reachable settings -/

theorem WellFormed.declareAll {s : Settings} (h : s.WellFormed) {ds : List SettingDeclaration}
    (hds : ∀ d ∈ ds, d.check.run d.default = .ok ()) : (s.declareAll ds).WellFormed := by
  unfold Settings.declareAll
  induction ds generalizing s with
  | nil => exact h
  | cons d ds ih =>
    rw [List.forall_mem_cons] at hds
    rw [List.foldl_cons]
    cases hs' : s.declare d with
    | error e => exact ih h hds.2
    | ok s' => exact ih (h.declare ⟨rfl, hds.1⟩ hs') hds.2

/-- The default values of the catalogue pass their own checks. -/
theorem check_default_of_mem_catalogue :
    ∀ d ∈ Catalogue.settings, d.check.run d.default = .ok () := by
  -- the catalogue is a closed list
  have hall : Catalogue.settings.all (fun d => (d.check.run d.default).isOk) = true := rfl
  intro d hd
  have hok := List.all_eq_true.mp hall d hd
  cases hrun : d.check.run d.default with
  | error reason => simp [hrun, Except.isOk, Except.toBool] at hok
  | ok => rfl

/-- Settings that come about by any sequence of operations. -/
inductive Reachable : Settings → Prop
  | empty : Reachable .empty
  | initial : Reachable .initial
  | declare {s s' : Settings} {d : SettingDeclaration} : Reachable s →
      d.check.run d.default = .ok () → s.declare d = .ok s' → Reachable s'
  | register {s : Settings} (id : EditorId) : Reachable s → Reachable (s.register id)
  | forget {s : Settings} (id : EditorId) : Reachable s → Reachable (s.forget id)
  | listen {s s' : Settings} {name : String} {l : Listener} : Reachable s →
      s.listen name l = .ok s' → Reachable s'
  /-- A write, refused or not. -/
  | write {s : Settings} (w : SettingWrite) (scope : SettingScope) (name : String) :
      Reachable s → Reachable (w.run scope name s).2
  /-- What listeners remember may change by itself. -/
  | remember {s : Settings} (a : Audience) : Reachable s → Reachable { s with audience := a }

/-- Whatever happens to settings keeps the invariant. -/
theorem Reachable.wellFormed {s : Settings} (h : s.Reachable) : s.WellFormed := by
  induction h with
  | empty => exact Keeps.empty
  -- the settings that there are from the start are declared one after the other
  | initial => exact WellFormed.declareAll Keeps.empty check_default_of_mem_catalogue
  | declare _ hd hs' ih => exact ih.declare ⟨rfl, hd⟩ hs'
  | register id _ ih => exact ih.register id
  | forget id _ ih => exact ih.forget id
  | listen _ hs' ih => exact ih.listen hs'
  | write w scope name _ ih => exact ih.write (fun _ _ => And.left) (fun _ _ => id) w scope name
  | remember a _ ih => exact ih.of_eq rfl rfl rfl

/-- **The store invariant.**  In reachable settings every stored value, shared or of an
editor, has its setting's type and passes its check; there is one shared value for each
declaration; every name and abbreviation leads to its declaration; and a known editor has
values for exactly the settings kept per editor. -/
theorem stored_values_of_reachable {s : Settings} (h : s.Reachable) :
    (∀ name v, s.shared.get? name = some v →
      ∃ d ∈ s.declarations, d.name = name ∧ v.type = d.type ∧ d.check.run v = .ok ()) ∧
    (∀ id vs name v, s.own.get? id = some vs → vs.get? name = some v →
      ∃ d ∈ s.declarations, d.name = name ∧ v.type = d.type ∧ d.check.run v = .ok ()) ∧
    s.shared.keys.Perm (s.declarations.map (·.name)) ∧
    (∀ d ∈ s.declarations, ∀ name, d.answersTo name → s.declaration? name = .ok d) ∧
    (∀ id vs, s.own.get? id = some vs →
      vs.keys.Perm ((s.declarations.filter (·.kind = .perEditor)).map (·.name))) := by
  have hw := h.wellFormed
  refine ⟨fun name v hv => ?_, fun id vs name v hvs hv => ?_, hw.shared.keys, hw.resolves,
    fun id vs hvs => (hw.own id vs hvs).keys⟩
  · obtain ⟨d, hd, hname, hacc⟩ := hw.shared.holds_of_get? hv
    exact ⟨d, hd, hname, hacc⟩
  · obtain ⟨d, hd, hname, hacc⟩ := (hw.own id vs hvs).holds_of_get? hv
    exact ⟨d, (mem_perEditor_iff.mp hd).1, hname, hacc⟩

/-- An edit that makes an unknown editor known and is refused by a listener: the values
stored by it are acceptable. -/
theorem stored_values_of_refused_edit :
    let s : Settings := { initial with
      listeners := [("shiftwidth", .observer "log" (some "12"))] }
    let s' := ((SettingWrite.edit .append "4").run (.editor ⟨2⟩) "sw" s).2
    s'.Reachable ∧
      ∀ id vs name v, s'.own.get? id = some vs → vs.get? name = some v →
        ∃ d ∈ s'.declarations, d.name = name ∧ v.type = d.type ∧ d.check.run v = .ok () := by
  intro s s'
  have hl : initial.listen "sw" (.observer "log" (some "12")) = .ok s := rfl
  have hs' : s'.Reachable := .write _ _ _ (.listen .initial hl)
  exact ⟨hs', (stored_values_of_reachable hs').2.1⟩

end Settings

end ModalScript
