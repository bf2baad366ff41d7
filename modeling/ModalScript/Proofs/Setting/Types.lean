/-
Settings of any making.

`Settings.Arises` lists what can happen to settings as `Settings.Reachable` does, but leaves open
whether the default of a new setting passes its own check.  Then a value need not be acceptable,
but it still has the type of its setting, since a commit stores no other values whether or not the
default would be accepted: the invariant of the settings holds with types alone
(`Settings.Typed`), and with it each editor that is known has a value for every setting that is
kept per editor.

Main result: `Arises.typed`.
-/
import ModalScript.Proofs.Setting.Command
import ModalScript.Proofs.Setting.WellFormed

namespace ModalScript

namespace Settings

variable {s t : Settings} {d : SettingDeclaration} {id : EditorId}

/-- Every value that is stored for a setting has the type of the setting. -/
def Typed (s : Settings) : Prop :=
  s.Keeps fun d v => v.type = d.type

/-- A write keeps the types, even if the default that it may restore is not acceptable. -/
theorem Typed.write (h : s.Typed) (w : SettingWrite) (scope : SettingScope) (name : String) :
    (w.run scope name s).2.Typed :=
  Keeps.write (fun _ _ => id) (fun _ _ => And.left) h w scope name

/-- A known editor has a value for each setting that is kept per editor. -/
theorem Typed.exists_own (h : s.Typed) {vs : Dict SettingValue} (hvs : s.own.get? id = some vs)
    (hd : d ∈ s.declarations) (hkind : d.kind = .perEditor) : ∃ v, vs.get? d.name = some v := by
  obtain ⟨v, hv, -⟩ := (h.own id vs hvs).exists_value (mem_perEditor_iff.mpr ⟨hd, hkind⟩)
  exact ⟨v, hv⟩

/-- Settings that come about by any sequence of operations.  Unlike those that are `Reachable`,
they may have settings whose defaults fail their own checks. -/
inductive Arises : Settings → Prop
  | empty : Arises .empty
  | declare {s t : Settings} {d : SettingDeclaration} :
      Arises s → s.declare d = .ok t → Arises t
  | register {s : Settings} (id : EditorId) : Arises s → Arises (s.register id)
  | forget {s : Settings} (id : EditorId) : Arises s → Arises (s.forget id)
  | listen {s t : Settings} {name : String} {l : Listener} :
      Arises s → s.listen name l = .ok t → Arises t
  /-- A write, refused or not. -/
  | write {s : Settings} (w : SettingWrite) (scope : SettingScope) (name : String) :
      Arises s → Arises (w.run scope name s).2
  /-- What listeners remember may change by itself. -/
  | remember {s : Settings} (a : Audience) : Arises s → Arises { s with audience := a }

namespace Arises

theorem declareAll (h : s.Arises) (ds : List SettingDeclaration) : (s.declareAll ds).Arises := by
  unfold Settings.declareAll
  induction ds generalizing s with
  | nil => exact h
  | cons d ds ih =>
    rw [List.foldl_cons]
    cases ht : s.declare d with
    -- a declaration that is refused leaves the settings as they are
    | error e => exact ih h
    | ok t => exact ih (h.declare ht)

theorem initial : Arises .initial :=
  .declareAll .empty _

theorem rewritten (h : s.Arises) (ht : s.Rewritten id t) : t.Arises := by
  induction ht with
  | refl => exact h
  | tail _ hstep ih =>
    obtain ⟨w, scope, name, -, rfl⟩ := hstep
    exact ih.write w scope name

/-- Whatever is done to settings, their values have the right types. -/
theorem typed (h : s.Arises) : s.Typed := by
  induction h with
  | empty => exact Keeps.empty
  | declare _ ht ih => exact Keeps.declare ih rfl ht
  | register id _ ih => exact Keeps.register ih id
  | forget id _ ih => exact Keeps.forget ih id
  | listen _ ht ih => exact Keeps.listen ih ht
  | write w scope name _ ih => exact ih.write w scope name
  | remember a _ ih => exact Keeps.of_eq ih rfl rfl rfl

end Arises

end Settings

end ModalScript
