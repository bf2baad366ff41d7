/-
Setting everything back to the defaults.

`set all&` resets one setting after the other, for the editor and at the shared scope, and each
reset is a write of its own: it is checked, it tells the listeners, and the first one for an
editor that is not known makes the editor known, with copies of values some of which have been
reset already.  None of this matters to what is read.  A value that is stored where a setting is
kept is read there, and elsewhere only by those who have read the same value as is kept there
(`Settings.valueAt_store_cases`).  So a reset may turn values into defaults and does nothing else
to them, and where the setting is at its default it does nothing at all; this is what
`Settings.Restored` says, and it goes from one reset to any number of them.

Main result: after `set all&` every setting has its default for the editor and at the shared
scope, and other editors have what they had (`Session.resetAll_restores`).
-/
import ModalScript.Proofs.Session.AllOrNothing

namespace ModalScript

/-! ### One value among all -/

namespace Settings

variable {s t u : Settings} {d d' : SettingDeclaration} {id : EditorId} {scope : SettingScope}
  {v : SettingValue}

theorem valueAt_editor (s : Settings) (d : SettingDeclaration) (id : EditorId) :
    s.valueAt d (.editor id) = ((s.own.get? id).bind (·.get? d.name)).getD (s.sharedValue d) :=
  rfl

/-- An editor that is not known would be given the values that it reads. -/
theorem getD_get?_valuesOf (hs : s.Typed) (hd : d ∈ s.declarations) (id : EditorId) :
    ((s.valuesOf id).get? d.name).getD (s.sharedValue d) = s.valueAt d (.editor id) := by
  rw [valueAt_editor, valuesOf]
  cases hown : s.own.get? id with
  | some vs => rfl
  | none =>
    rw [Option.getD_none, Option.bind_none, Option.getD_none, hs.get?_initialValues hd]
    split <;> rfl

/-- A value that is stored for one setting is not read for another one, though the editor may
have been made known. -/
theorem valueAt_store_of_ne (hs : s.Typed) (hd' : d' ∈ s.declarations) (hname : d'.name ≠ d.name)
    (place place' : SettingScope) (v : SettingValue) :
    (s.store d place v).valueAt d' place' = s.valueAt d' place' := by
  have hshared := sharedValue_store_of_ne hname s place v
  cases place' with
  | shared => exact hshared
  | editor id' =>
    rw [valueAt_editor, hshared]
    cases place with
    | shared => rfl
    | editor id =>
      rw [get?_store_editor]
      split
      · next hid =>
        rw [hid, Option.bind_some, Dict.get?_insert_ne _ v hname]
        exact getD_get?_valuesOf hs hd' id
      · rfl

/-- A value that is stored for a setting is read at another place by those who have read there
what was kept where it is stored. -/
theorem valueAt_store_self_cases (s : Settings) (d : SettingDeclaration)
    (place place' : SettingScope) (v : SettingValue) :
    (s.store d place v).valueAt d place' = s.valueAt d place' ∨
      (s.store d place v).valueAt d place' = v ∧ s.valueAt d place' = s.valueAt d place := by
  by_cases hplace : place' = place
  · subst hplace
    exact .inr ⟨valueAt_store s d place' v, rfl⟩
  · cases place with
    | editor id =>
      left
      rw [store_editor]
      cases place' with
      | shared => rfl
      | editor id' =>
        have hid : id' ≠ id := fun h => hplace (congrArg SettingScope.editor h)
        rw [valueAt_editor, get?_store_editor, if_neg hid]
        rfl
    | shared =>
      cases place' with
      | shared => exact absurd rfl hplace
      | editor id' =>
        -- the shared value is read by the editors that have no value of their own
        have hstored : (s.store d .shared v).sharedValue d = v := valueAt_store s d .shared v
        have hown : (s.store d .shared v).own = s.own := rfl
        rw [valueAt_editor, valueAt_editor, hstored, hown]
        cases (s.own.get? id').bind (·.get? d.name) with
        | none => exact .inr ⟨rfl, rfl⟩
        | some w => exact .inl rfl

/-- After a value has been stored, a setting reads as before, or it is the setting of that value,
and has read as it did where the value is kept. -/
theorem valueAt_store_cases (hs : s.Typed) (hd : d ∈ s.declarations) (hd' : d' ∈ s.declarations)
    (place place' : SettingScope) (v : SettingValue) :
    (s.store d place v).valueAt d' place' = s.valueAt d' place' ∨
      d' = d ∧ (s.store d place v).valueAt d' place' = v ∧
        s.valueAt d' place' = s.valueAt d place := by
  by_cases hname : d'.name = d.name
  · obtain rfl := hs.eq_of_name hd hd' hname
    exact (valueAt_store_self_cases s d' place place' v).imp_right fun h => ⟨rfl, h⟩
  · exact .inl (valueAt_store_of_ne hs hd' hname place place' v)

/-- A value of the right type that passes its check is stored, whatever the listeners say. -/
theorem exists_setValue (hd : s.declaration? d.name = .ok d) (scope : SettingScope)
    (v : SettingValue) (htype : v.type = d.type) (hcheck : d.check.run v = .ok ()) :
    ∃ a, (setValue scope d.name v s).2 =
      { s.store d (d.effectiveScope scope) v with audience := a } := by
  have hrun : setValue scope d.name v s = commit d scope v s := by
    show (SettingWrite.value v).run scope d.name s = _
    rw [SettingWrite.run_of_declared hd]
    simp [SettingWrite.wanted, SettingWrite.isEdit, htype]
  rw [hrun, commit_accepted hcheck]
  exact ⟨_, rfl⟩

/-- Settings that exist and have the same values read the same. -/
theorem get_eq_of_current (hdeclarations : t.declarations = s.declarations)
    (hcurrent : ∀ d ∈ s.declarations, t.current scope d = s.current scope d) (name : String) :
    t.get scope name = s.get scope name := by
  have hlookup : t.declaration? name = s.declaration? name := by
    rw [declaration?, declaration?, hdeclarations]
  rw [get, get, hlookup]
  cases hd : s.declaration? name with
  | error e => rfl
  | ok d => exact congrArg Except.ok (hcurrent d (mem_of_declaration? hd))

/-! ### Values that become defaults -/

/-- The setting has its default for an editor and at the shared scope. -/
def AtDefault (s : Settings) (id : EditorId) (d : SettingDeclaration) : Prop :=
  s.current .shared d = d.default ∧ s.current (.editor id) d = d.default

/-- The same settings, some of whose values have become defaults; but none, if all settings have
been at their defaults for the editor. -/
structure Restored (id : EditorId) (s t : Settings) : Prop where
  unopposed : t.Unopposed
  declarations : t.declarations = s.declarations
  current : ∀ scope, ∀ d ∈ s.declarations,
    t.current scope d = s.current scope d ∨ t.current scope d = d.default
  idle : (∀ d ∈ s.declarations, s.AtDefault id d) →
    ∀ scope, ∀ d ∈ s.declarations, t.current scope d = s.current scope d

namespace Restored

theorem refl (id : EditorId) (h : s.Unopposed) : s.Restored id s :=
  ⟨h, rfl, fun _ _ _ => .inl rfl, fun _ _ _ _ => rfl⟩

/-- A default stays. -/
theorem eq_default (h : s.Restored id t) (hd : d ∈ s.declarations)
    (hdefault : s.current scope d = d.default) : t.current scope d = d.default :=
  (h.current scope d hd).elim (·.trans hdefault) fun hreset => hreset

theorem atDefault (h : s.Restored id t) (hd : d ∈ s.declarations) (hs : s.AtDefault id d) :
    t.AtDefault id d :=
  ⟨h.eq_default hd hs.1, h.eq_default hd hs.2⟩

theorem trans (h : s.Restored id t) (h' : t.Restored id u) : s.Restored id u := by
  have hmem {d : SettingDeclaration} (hd : d ∈ s.declarations) : d ∈ t.declarations :=
    h.declarations ▸ hd
  refine ⟨h'.unopposed, h'.declarations.trans h.declarations, fun scope d hd => ?_,
    fun hidle scope d hd => ?_⟩
  · rcases h'.current scope d (hmem hd) with hsame | hreset
    · rw [hsame]
      exact h.current scope d hd
    · exact .inr hreset
  · rw [h'.idle (fun d hd => ?_) scope d (hmem hd), h.idle hidle scope d hd]
    rw [h.declarations] at hd
    exact h.atDefault hd (hidle d hd)

end Restored

/-- A single reset, of a setting whose default passes its check. -/
theorem Unopposed.reset (h : s.Unopposed) (hd : d ∈ s.declarations)
    (hcheck : d.check.run d.default = .ok ()) (hscope : scope = .shared ∨ scope = .editor id) :
    ∃ t, Settings.reset scope d.name s = (.ok (), t) ∧ s.Restored id t ∧
      t.current scope d = d.default := by
  have hlookup := h.typed.declaration?_name hd
  have hrun : Settings.reset scope d.name s = commit d scope d.default s := by
    show SettingWrite.reset.run scope d.name s = _
    rw [SettingWrite.run_of_declared hlookup]
    simp [SettingWrite.wanted, SettingWrite.isEdit]
  have ht : (Settings.reset scope d.name s).2.Unopposed := h.write .reset scope d.name
  rw [hrun] at ht ⊢
  refine ⟨_, Prod.ext (h.commit_eq_ok hd hcheck scope) rfl, ⟨ht, ?_, ?_, ?_⟩, ?_⟩
  all_goals rw [commit_accepted hcheck]
  · exact declarations_store s d _ _
  · intro scope' d' hd'
    rcases valueAt_store_cases h.typed hd hd' (d.effectiveScope scope) (d'.effectiveScope scope')
      d.default with hsame | ⟨rfl, hreset, -⟩
    · exact .inl hsame
    · exact .inr hreset
  · intro hidle scope' d' hd'
    rcases valueAt_store_cases h.typed hd hd' (d.effectiveScope scope) (d'.effectiveScope scope')
      d.default with hsame | ⟨rfl, hreset, hread⟩
    · exact hsame
    · -- the default is stored where it is kept already
      have hkept : s.current scope d' = d'.default := by
        rcases hscope with rfl | rfl
        · exact (hidle d' hd').1
        · exact (hidle d' hd').2
      exact hreset.trans (hread.trans hkept).symm
  · exact valueAt_store s d (d.effectiveScope scope) d.default

end Settings

/-! ### All settings -/

namespace SetRun

open Settings

variable {p : SetProgress} {d : SettingDeclaration} {id : EditorId}

/-- A reset at several scopes, which are the shared one and that of the editor. -/
theorem reset_scopes (h : p.settings.Unopposed) (hd : d ∈ p.settings.declarations)
    (hcheck : d.check.run d.default = .ok ()) (scopes : List SettingScope)
    (hscopes : ∀ scope ∈ scopes, scope = .shared ∨ scope = .editor id) :
    ∃ t, (scopes.forM fun scope => configure (Settings.reset scope d.name)) p =
        (.ok (), { p with settings := t }) ∧
      p.settings.Restored id t ∧ ∀ scope ∈ scopes, t.current scope d = d.default := by
  induction scopes generalizing p with
  | nil => exact ⟨p.settings, rfl, .refl id h, fun _ hscope => absurd hscope List.not_mem_nil⟩
  | cons scope scopes ih =>
    rw [List.forall_mem_cons] at hscopes
    obtain ⟨t, hreset, ht, hdefault⟩ := h.reset hd hcheck hscopes.1
    have hdt : d ∈ t.declarations := ht.declarations ▸ hd
    obtain ⟨u, hrest, hu, hdefaults⟩ :=
      ih (p := { p with settings := t }) ht.unopposed hdt hscopes.2
    refine ⟨u, ?_, ht.trans hu, List.forall_mem_cons.mpr ⟨hu.eq_default hdt hdefault, hdefaults⟩⟩
    rw [forM_cons_apply, hreset]
    exact hrest

/-- One setting is reset by `set`. -/
theorem reset_both (id : EditorId) (h : p.settings.Unopposed) (hd : d ∈ p.settings.declarations)
    (hcheck : d.check.run d.default = .ok ()) :
    ∃ t, onAll .both id d (fun scope => Settings.reset scope d.name) p =
        (.ok (), { p with settings := t }) ∧
      p.settings.Restored id t ∧ t.AtDefault id d := by
  obtain ⟨t, hrun, ht, hdefaults⟩ := reset_scopes h hd hcheck
    (SetKind.both.writeScopes id d.kind) fun _ => SetKind.eq_or_of_mem_writeScopes
  refine ⟨t, hrun, ht, ?_⟩
  cases hkind : d.kind with
  | perEditor =>
    rw [hkind] at hdefaults
    exact ⟨hdefaults _ (by simp [SetKind.writeScopes]), hdefaults _ (by simp [SetKind.writeScopes])⟩
  | shared =>
    rw [hkind] at hdefaults
    have hshared := hdefaults .shared (by simp [SetKind.writeScopes])
    refine ⟨hshared, ?_⟩
    rw [current, SettingDeclaration.effectiveScope_of_shared hkind]
    exact hshared

/-- Settings are reset one after the other. -/
theorem reset_each (id : EditorId) (h : p.settings.Unopposed) {ds : List SettingDeclaration}
    (hds : ∀ d ∈ ds, d ∈ p.settings.declarations ∧ d.check.run d.default = .ok ()) :
    ∃ t, (ds.forM fun d => onAll .both id d fun scope => Settings.reset scope d.name) p =
        (.ok (), { p with settings := t }) ∧
      p.settings.Restored id t ∧ ∀ d ∈ ds, t.AtDefault id d := by
  induction ds generalizing p with
  | nil => exact ⟨p.settings, rfl, .refl id h, fun _ hd => absurd hd List.not_mem_nil⟩
  | cons d ds ih =>
    rw [List.forall_mem_cons] at hds
    obtain ⟨⟨hd, hcheck⟩, hds⟩ := hds
    obtain ⟨t, hreset, ht, hdefault⟩ := reset_both id h hd hcheck
    obtain ⟨u, hrest, hu, hdefaults⟩ := ih (p := { p with settings := t }) ht.unopposed
      fun d' hd' => ⟨ht.declarations ▸ (hds d' hd').1, (hds d' hd').2⟩
    -- the later resets leave the setting at its default
    have hdt : d ∈ t.declarations := ht.declarations ▸ hd
    refine ⟨u, ?_, ht.trans hu, List.forall_mem_cons.mpr ⟨hu.atDefault hdt hdefault, hdefaults⟩⟩
    show ((onAll .both id d fun scope => Settings.reset scope d.name) >>= fun _ =>
      ds.forM fun d => onAll .both id d fun scope => Settings.reset scope d.name) p = _
    rw [bind_apply, hreset]
    exact hrest

/-- Nothing is shown where all settings have their defaults. -/
theorem showChanged_apply {kind : SetKind}
    (h : ∀ d ∈ p.settings.declarations, p.settings.current (kind.readScope id) d = d.default) :
    showChanged kind id p = (.ok (), p) := by
  have hnone : (p.settings.declarations.filter fun d =>
      p.settings.current (kind.readScope id) d ≠ d.default) = [] := by
    refine List.filter_eq_nil_iff.mpr fun d hd => ?_
    simp [h d hd]
  have hget : (get : SetRun SetProgress) p = (.ok p, p) := rfl
  rw [showChanged, bind_apply, hget]
  simp only [hnone]
  rfl

/-- All settings are reset by `set`, and the values of other editors are not written. -/
theorem run_resetAll (id : EditorId) (h : p.settings.Unopposed)
    (hdefaults : ∀ d ∈ p.settings.declarations, d.check.run d.default = .ok ()) :
    ∃ t, run .both id "all&" p = (.ok (), { p with settings := t }) ∧
      p.settings.Restored id t ∧ (∀ d ∈ p.settings.declarations, t.AtDefault id d) ∧
      p.settings.Rewritten id t := by
  obtain ⟨t, hreset, ht, hdefault⟩ := reset_each id h fun d hd => ⟨hd, hdefaults d hd⟩
  have hrun : run .both id "all&" p = (.ok (), { p with settings := t }) := by
    have hitems : splitItems "all&" = ["all&"] := rfl
    have hparse : SetItem.parse "all&" = .ok .resetAll := rfl
    have happly : applyItem .both id .resetAll p = (.ok (), { p with settings := t }) := by
      have hget : (get : SetRun SetProgress) p = (.ok p, p) := rfl
      rw [applyItem, bind_apply, hget]
      exact hreset
    unfold run
    rw [hitems]
    show (runItem .both id "all&" >>= fun _ => pure ()) p = _
    rw [bind_apply, runItem_apply, hparse]
    simp only [happly]
    rfl
  have hwrites : p.settings.Rewritten id (run .both id "all&" p).2.settings :=
    writes_run .both "all&" p
  rw [hrun] at hwrites
  exact ⟨t, hrun, ht, hdefault, hwrites⟩

end SetRun

/-! ### The command -/

/-- The state with other settings. -/
def State.withSettings (s : State) (t : Settings) : State :=
  { s with session := { s.session with settings := t } }

namespace Command

/-- The command that resets all settings, `set all&`. -/
def resetAll : Command :=
  .text (.set .both) { argument := "all&" }

/-- `set` without items, which shows what differs from its default. -/
def showChanged : Command :=
  .text (.set .both) {}

/-- Nothing is wrong with the line of a settings command but a range. -/
theorem validate_set (kind : SetKind) {line : CommandLine} (hrange : line.range = none)
    (lineCount : Nat) :
    validate (text (.set kind) line).name (text (.set kind) line).descriptor
      (text (.set kind) line).line lineCount = .ok () := by
  show validate _ ⟨.forbidden, .optional, .readOnly⟩ line lineCount = _
  unfold validate validateRange validateArgument
  rw [hrange]
  cases line.hasArgument <;> rfl

/-- A settings command that shows nothing and does not fail. -/
theorem execute_set (call : Caller) {kind : SetKind} {line : CommandLine}
    (hrange : line.range = none) {s : State} {t : Settings}
    (h : SetRun.run kind s.editor.id line.argument ⟨s.session.settings, []⟩ = (.ok (), ⟨t, []⟩)) :
    execute call (.text (.set kind) line) s = (.value (), s.withSettings t) := by
  unfold execute
  rw [validate_set kind hrange]
  show changeSettings kind line s = _
  unfold changeSettings
  rw [h]
  rfl

end Command

/-! ### Reachable sessions -/

/-- A value is written at the shared scope, and then another one for an editor. -/
theorem Session.Reachable.write_both {s : Session} (hs : s.Reachable) {d : SettingDeclaration}
    {v w : SettingValue} (hd : d ∈ s.settings.declarations) (hkind : d.kind = .perEditor)
    (hv : d.Accepts v) (hw : d.Accepts w) (id : EditorId) :
    ∃ t : Settings, Reachable { s with settings := t } ∧
      t.declarations = s.settings.declarations ∧ t.listeners = s.settings.listeners ∧
      t.get .shared d.name = .ok v ∧ t.get (.editor id) d.name = .ok w ∧
      (t.own.get? id).isSome ∧ ∀ id' ≠ id, t.own.get? id' = s.settings.own.get? id' := by
  have hlookup := hs.arises.typed.declaration?_name hd
  have hscope : d.effectiveScope (.editor id) = .editor id := by
    simp only [SettingDeclaration.effectiveScope, hkind]
  obtain ⟨a, hfirst⟩ := Settings.exists_setValue hlookup .shared v hv.1 hv.2
  let s₁ : Settings := { s.settings.store d .shared v with audience := a }
  obtain ⟨b, hsecond⟩ := Settings.exists_setValue (s := s₁) hlookup (.editor id) w hw.1 hw.2
  rw [hscope] at hsecond
  let s₂ : Settings := { s₁.store d (.editor id) w with audience := b }
  have hreach := (hs.write (.value v) .shared d.name).write (.value w) (.editor id) d.name
  have hs₂ : (SettingWrite.run (.editor id) d.name (.value w)
      (SettingWrite.run .shared d.name (.value v) s.settings).2).2 = s₂ := by
    show (Settings.setValue (.editor id) d.name w (Settings.setValue .shared d.name v _).2).2 = _
    rw [hfirst]
    exact hsecond
  rw [hs₂] at hreach
  have hdeclarations : s₂.declarations = s.settings.declarations :=
    Settings.declarations_store s₁ d (.editor id) w
  have hget (scope : SettingScope) : s₂.get scope d.name = .ok (s₂.current scope d) := by
    have hlookup₂ : s₂.declaration? d.name = .ok d :=
      hreach.arises.typed.declaration?_name (hdeclarations.symm ▸ hd)
    rw [Settings.get, hlookup₂]
    rfl
  -- the second write changes nothing but the own values of the editor
  have hlisteners : (s₁.store d (.editor id) w).listeners = s.settings.listeners := by
    rw [Settings.store_editor]
    rfl
  have hshared : (s₁.store d (.editor id) w).sharedValue d = v := by
    rw [Settings.store_editor]
    exact Settings.valueAt_store s.settings d .shared v
  have hown (id' : EditorId) := Settings.get?_store_editor s₁ d id id' w
  refine ⟨s₂, hreach, hdeclarations, hlisteners, ?_, ?_, ?_, ?_⟩
  · rw [hget]
    exact congrArg Except.ok hshared
  · rw [hget, Settings.current, hscope]
    exact congrArg Except.ok (Settings.valueAt_store s₁ d (.editor id) w)
  · show ((s₁.store d (.editor id) w).own.get? id).isSome
    rw [hown, if_pos rfl]
    rfl
  · intro id' hne
    exact (hown id').trans (if_neg hne)

/-- In the state `s`, `set all&` restores everything, and `t` are the settings afterwards. -/
structure Session.RestoresAll (call : Caller) (s : State) (t : Settings) : Prop where
  /-- The command succeeds and does nothing but change the settings. -/
  succeeds : Command.resetAll.execute call s = (.value (), s.withSettings t)
  declarations : t.declarations = s.session.settings.declarations
  defaults : ∀ d ∈ s.session.settings.declarations, t.get .shared d.name = .ok d.default ∧
    t.get (.editor s.editor.id) d.name = .ok d.default
  /-- Nothing is left to be shown. -/
  silent : Command.showChanged.execute call (s.withSettings t) = (.value (), s.withSettings t)
  /-- Every other known editor has the values it had. -/
  others : ∀ id ≠ s.editor.id, (s.session.settings.own.get? id).isSome →
    ∀ d ∈ s.session.settings.declarations, d.kind = .perEditor →
      t.get (.editor id) d.name = s.session.settings.get (.editor id) d.name
  /-- The command succeeds a second time and changes no value. -/
  again : ∃ u : Settings,
    Command.resetAll.execute call (s.withSettings t) = (.value (), s.withSettings u) ∧
    ∀ scope name, u.get scope name = t.get scope name

/-- **`set all&` restores everything.**  In a reachable session nobody refuses a value that passes
the check of its setting, and the settings that have been declared later have defaults that pass
theirs.  The command is run in any editor, known to the settings or not.

It succeeds and does nothing but change the settings.  Afterwards each setting has its default at
the shared scope and for the editor, and a `set` without items shows nothing.  Every other known
editor has the values it had of the settings that are kept for each editor.  Running the command
a second time succeeds and changes the value of no setting at any scope. -/
theorem Session.resetAll_restores {s : State} (hs : s.session.Reachable)
    (haccepting : ∀ p ∈ s.session.settings.listeners, p.2.Accepting)
    (hdefaults : ∀ d ∈ s.session.settings.declarations, d ∉ Catalogue.settings →
      d.check.run d.default = .ok ()) (call : Caller) : ∃ t, RestoresAll call s t := by
  have hpasses : ∀ d ∈ s.session.settings.declarations, d.check.run d.default = .ok () := by
    intro d hd
    by_cases hbuiltin : d ∈ Catalogue.settings
    · exact Settings.check_default_of_mem_catalogue d hbuiltin
    · exact hdefaults d hd hbuiltin
  obtain ⟨t, hfirst, ht, hdefault, hrewritten⟩ :=
    SetRun.run_resetAll (p := ⟨s.session.settings, []⟩) s.editor.id
      ⟨hs.arises.typed, hs.keywordsFollow, haccepting⟩ hpasses
  have hdefault' : ∀ d ∈ t.declarations, t.AtDefault s.editor.id d := by
    rw [ht.declarations]
    exact hdefault
  obtain ⟨u, hsecond, hu, -, -⟩ :=
    SetRun.run_resetAll (p := ⟨t, []⟩) s.editor.id ht.unopposed
      (by rw [ht.declarations]; exact hpasses)
  have hbare : SetRun.run .both s.editor.id "" ⟨t, []⟩ = (.ok (), ⟨t, []⟩) :=
    SetRun.showChanged_apply fun d hd => (hdefault' d hd).2
  refine ⟨t,
    { succeeds := Command.execute_set call rfl hfirst
      declarations := ht.declarations
      defaults := fun d hd => ?_
      silent := Command.execute_set call rfl hbare
      others := fun id hid hknown d hd hkind => ?_
      again := ⟨u, Command.execute_set call rfl hsecond, fun scope name => ?_⟩ }⟩
  · have hlookup := ht.unopposed.typed.declaration?_name (ht.declarations.symm ▸ hd)
    rw [Settings.get, Settings.get, hlookup]
    exact ⟨congrArg Except.ok (hdefault d hd).1, congrArg Except.ok (hdefault d hd).2⟩
  · exact hs.arises.typed.get_eq (hrewritten.sameFor hid) hknown
      (hs.arises.typed.declaration?_name hd) hkind
  · -- the second time all settings are at their defaults, so that nothing changes
    exact Settings.get_eq_of_current hu.declarations (hu.idle hdefault' scope) name

/-- A setting that has been declared later has another shared value and a third one for another
editor; the editor in which the command is run is not known. -/
theorem Session.resetAll_restores_of_declared :
    ∃ (s : State) (id : EditorId) (t : Settings), s.session.Reachable ∧
      s.session.settings.own.get? s.editor.id = none ∧
      s.session.settings.get .shared "margin" = .ok (.number 5) ∧
      Command.resetAll.execute (callFunction 0) s = (.value (), s.withSettings t) ∧
      t.get .shared "margin" = .ok (.number 2) ∧
      t.get (.editor s.editor.id) "margin" = .ok (.number 2) ∧
      t.get (.editor id) "margin" = .ok (.number 3) := by
  let d := (Catalogue.bounded "margin" "mg" 2 0 9).perEditor
  obtain ⟨s, s₀, hs, hdeclare, hdeclarations, hlisteners, hown⟩ :
      ∃ s s₀, ofSettings .initial = .ok s ∧ s.settings.declare d = .ok s₀ ∧
        s₀.declarations = Catalogue.settings ++ [d] ∧
        s₀.listeners = [(keywordSetting, .keywordTable)] ∧ s₀.own.get? ⟨0⟩ = none :=
    ⟨_, _, rfl, rfl, rfl, rfl, rfl⟩
  have hd : d ∈ s₀.declarations := by
    rw [hdeclarations]
    exact List.mem_append_right _ List.mem_cons_self
  have hreach : Reachable { s with settings := s₀ } := (Reachable.new hs).declare hdeclare
  obtain ⟨t, ht, hdeclarations', hlisteners', hshared, hother, hknown, howns⟩ :=
    hreach.write_both (v := .number 5) (w := .number 3) hd rfl ⟨rfl, rfl⟩ ⟨rfl, rfl⟩ ⟨1⟩
  have haccepting : ∀ p ∈ t.listeners, p.2.Accepting := by
    rw [hlisteners', hlisteners]
    exact List.forall_mem_singleton.mpr trivial
  have hdefaults : ∀ d ∈ t.declarations, d ∉ Catalogue.settings →
      d.check.run d.default = .ok () := by
    intro d' hd' hlater
    rw [hdeclarations', hdeclarations, List.mem_append, List.mem_singleton] at hd'
    obtain rfl := hd'.resolve_left hlater
    rfl
  have hdt : d ∈ t.declarations := hdeclarations' ▸ hd
  have hne : (⟨1⟩ : EditorId) ≠ ⟨0⟩ := by decide
  obtain ⟨u, hu⟩ :=
    resetAll_restores (s := ⟨{ s with settings := t }, .ofString ⟨0⟩ ""⟩) ht haccepting hdefaults
      (callFunction 0)
  obtain ⟨hsharedDefault, hownDefault⟩ := hu.defaults d hdt
  exact ⟨⟨{ s with settings := t }, .ofString ⟨0⟩ ""⟩, ⟨1⟩, u, ht, (howns ⟨0⟩ hne.symm).trans hown,
    hshared, hu.succeeds, hsharedDefault, hownDefault,
    (hu.others ⟨1⟩ hne hknown d hdt rfl).trans hother⟩

end ModalScript
