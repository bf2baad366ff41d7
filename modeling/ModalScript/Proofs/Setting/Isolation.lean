/-
What writes leave alone.

A write at the shared scope or for one editor changes nothing that is kept for another
editor (`Settings.SameFor`), neither whether the editor is known nor any of its own values,
however many writes there are (`Rewritten.sameFor`).  The settings of that editor then also
read as before (`Typed.get_eq`), though a setting without an own value reads as the shared one:
a known editor has own values for all settings that are kept per editor.
-/
import ModalScript.Proofs.Setting.Types

namespace ModalScript

namespace Settings

variable {s t u : Settings} {id id' : EditorId}

/-! ### What is kept for one editor -/

/-- The same settings exist, and what is kept for an editor is the same. -/
structure SameFor (id : EditorId) (s t : Settings) : Prop where
  declarations : t.declarations = s.declarations
  own : t.own.get? id = s.own.get? id

theorem SameFor.refl (id : EditorId) (s : Settings) : s.SameFor id s :=
  ⟨rfl, rfl⟩

theorem SameFor.trans (h : s.SameFor id t) (h' : t.SameFor id u) : s.SameFor id u :=
  ⟨h'.declarations.trans h.declarations, h'.own.trans h.own⟩

/-- Nothing of the kind is touched. -/
theorem SameFor.of_eq (hdeclarations : t.declarations = s.declarations) (hown : t.own = s.own) :
    s.SameFor id t :=
  ⟨hdeclarations, by rw [hown]⟩

/-- Listeners are told of the change and do not make any. -/
theorem SameFor.notify (h : s.SameFor id t) (d : SettingDeclaration) (change : SettingChange) :
    s.SameFor id (t.notify d change).2 :=
  ⟨h.declarations, h.own⟩

/-- What is stored at another place is not kept for the editor. -/
theorem sameFor_store (s : Settings) (d : SettingDeclaration) {place : SettingScope}
    (hplace : place ≠ .editor id) (v : SettingValue) : s.SameFor id (s.store d place v) := by
  cases place with
  | shared => exact ⟨rfl, rfl⟩
  | editor id' =>
    have hne : id ≠ id' := fun h => hplace (congrArg SettingScope.editor h.symm)
    refine ⟨?_, ?_⟩
    · rw [store_editor]
    · rw [get?_store_editor, if_neg hne]

/-- A write at another scope leaves alone what is kept for an editor. -/
theorem sameFor_write (s : Settings) (w : SettingWrite) {scope : SettingScope}
    (hscope : scope ≠ .editor id) (name : String) : s.SameFor id (w.run scope name s).2 := by
  refine write_induction (.refl id s) fun d v _ _ _ => ?_
  -- a setting that is kept once is stored at the shared place whatever the scope is
  have hplace : d.effectiveScope scope ≠ .editor id :=
    fun h => hscope (SettingDeclaration.effectiveScope_editor h).2
  exact (sameFor_store s d hplace v).notify d _

/-- Writes at the shared scope and for one editor leave alone what is kept for another. -/
theorem Rewritten.sameFor (h : s.Rewritten id t) (hne : id' ≠ id) : s.SameFor id' t := by
  induction h with
  | refl => exact .refl id' s
  | tail _ hstep ih =>
    obtain ⟨w, scope, name, hscope, rfl⟩ := hstep
    refine ih.trans (sameFor_write _ w ?_ name)
    -- each write is at the shared scope or for the editor that writes
    rcases hscope with rfl | rfl
    · exact nofun
    · exact fun h => hne (SettingScope.editor.inj h).symm

/-! ### Own values -/

/-- Where the own values are the same, each setting that is kept per editor reads the same. -/
theorem Typed.get_eq (hs : s.Typed) (h : s.SameFor id t) (hid : (s.own.get? id).isSome)
    {name : String} {d : SettingDeclaration} (hd : s.declaration? name = .ok d)
    (hkind : d.kind = .perEditor) : t.get (.editor id) name = s.get (.editor id) name := by
  obtain ⟨vs, hvs⟩ := Option.isSome_iff_exists.mp hid
  obtain ⟨v, hv⟩ := hs.exists_own hvs (mem_of_declaration? hd) hkind
  have hscope : d.effectiveScope (.editor id) = .editor id := by
    simp only [SettingDeclaration.effectiveScope, hkind]
  -- the own value hides the shared one, whatever has become of that
  have hvalue : ∀ s' : Settings, s'.own.get? id = some vs → s'.current (.editor id) d = v := by
    intro s' hvs'
    rw [current, hscope, valueAt, hvs', Option.bind_some, hv, Option.getD_some]
  have hd' : t.declaration? name = .ok d := by
    rw [declaration?, h.declarations]
    exact hd
  rw [Settings.get, Settings.get, hd, hd']
  exact congrArg Except.ok ((hvalue t (h.own.trans hvs)).trans (hvalue s hvs).symm)

end Settings

end ModalScript
