/-
Editors do not interfere.

Something is kept for one editor at two places: its buffer, window and tab variables, and
its own values of settings.  `Session.SameFor` says that neither has changed.  Whatever runs
against an editor leaves the session the same for every other one: this is an induction on
`Effect`, in which the variables that a store or a removal changes are those of the editor
itself (`Variables.sameFor_store`), and the settings are only written, at the shared scope
or at that of the editor.

Main result: a script run against one editor, however it ends, changes no buffer, window or
tab variable of another one, does not make the other one known or unknown to the settings,
and changes the value of no setting that is kept per editor there
(`otherEditors_run`), although a shared value of the same setting may have changed.
-/
import ModalScript.Proofs.Session.Keywords
import ModalScript.Proofs.Setting.Isolation

namespace ModalScript

/-! ### Variables of one editor -/

namespace Variables

variable {vs vs' vs'' : Variables} {id : EditorId}

/-- The buffer, window and tab variables of an editor are the same. -/
structure SameFor (id : EditorId) (vs vs' : Variables) : Prop where
  buffers : vs'.buffers.get? id = vs.buffers.get? id
  windows : vs'.windows.get? id = vs.windows.get? id
  tabs : vs'.tabs.get? id = vs.tabs.get? id

theorem SameFor.refl (id : EditorId) (vs : Variables) : vs.SameFor id vs :=
  ⟨rfl, rfl, rfl⟩

theorem SameFor.trans (h : vs.SameFor id vs') (h' : vs'.SameFor id vs'') : vs.SameFor id vs'' :=
  ⟨h'.buffers.trans h.buffers, h'.windows.trans h.windows, h'.tabs.trans h.tabs⟩

/-- Nothing of the kind is touched. -/
theorem SameFor.of_eq (hbuffers : vs'.buffers = vs.buffers) (hwindows : vs'.windows = vs.windows)
    (htabs : vs'.tabs = vs.tabs) : vs.SameFor id vs' :=
  ⟨by rw [hbuffers], by rw [hwindows], by rw [htabs]⟩

theorem get?_insertFor_ne (m : PerEditor (Dict Value)) {id' : EditorId} (hne : id ≠ id')
    (name : String) (x : Value) : (insertFor m id' name x).get? id = m.get? id :=
  PerEditor.get?_set_ne m _ hne

theorem get?_removeFor_ne (m : PerEditor (Dict Value)) {id' : EditorId} (hne : id ≠ id')
    (name : String) : (removeFor m id' name).2.get? id = m.get? id := by
  unfold removeFor
  split
  · exact PerEditor.get?_set_ne m _ hne
  · rfl

/-- An editor stores in no variable of another one. -/
theorem sameFor_store {v : VariableName} {x : Value} {id' : EditorId} (hne : id ≠ id')
    (h : vs.store v x id' = .ok vs') : vs.SameFor id vs' := by
  obtain ⟨scope, name⟩ := v
  cases scope with
  -- without a scope a variable is global or local, but never kept for an editor
  | none =>
    cases hframe : vs.frame? with
    | none =>
      simp only [store, hframe, Except.ok.injEq] at h
      exact h ▸ .of_eq rfl rfl rfl
    | some f =>
      simp only [store, hframe, Except.ok.injEq] at h
      exact h ▸ .of_eq rfl rfl rfl
  | some scope =>
    cases scope with
    | globals | script =>
      simp only [store, Except.ok.injEq] at h
      exact h ▸ .of_eq rfl rfl rfl
    | arguments => simp [store] at h
    | locals =>
      cases hframe : vs.frame? with
      | none => simp [store, hframe] at h
      | some f =>
        simp only [store, hframe, Except.ok.injEq] at h
        exact h ▸ .of_eq rfl rfl rfl
    | buffer =>
      simp only [store, Except.ok.injEq] at h
      exact h ▸ ⟨get?_insertFor_ne vs.buffers hne name x, rfl, rfl⟩
    | window =>
      simp only [store, Except.ok.injEq] at h
      exact h ▸ ⟨rfl, get?_insertFor_ne vs.windows hne name x, rfl⟩
    | tab =>
      simp only [store, Except.ok.injEq] at h
      exact h ▸ ⟨rfl, rfl, get?_insertFor_ne vs.tabs hne name x⟩
    | builtins =>
      simp only [store] at h
      split at h
      · cases h
        exact .of_eq rfl rfl rfl
      · cases h

/-- An editor removes no variable of another one. -/
theorem sameFor_remove {v : VariableName} {found : Bool} {id' : EditorId} (hne : id ≠ id')
    (h : vs.remove v id' = .ok (found, vs')) : vs.SameFor id vs' := by
  obtain ⟨scope, name⟩ := v
  cases scope with
  | none =>
    cases hframe : vs.frame? with
    | none =>
      simp only [remove, hframe, Except.ok.injEq, Prod.mk.injEq] at h
      exact h.2 ▸ .of_eq rfl rfl rfl
    | some f =>
      simp only [remove, hframe, removeLocal, Except.ok.injEq, Prod.mk.injEq] at h
      exact h.2 ▸ .of_eq rfl rfl rfl
  | some scope =>
    cases scope with
    | globals | script =>
      simp only [remove, Except.ok.injEq, Prod.mk.injEq] at h
      exact h.2 ▸ .of_eq rfl rfl rfl
    | arguments | builtins => simp [remove] at h
    | locals =>
      cases hframe : vs.frame? with
      | none =>
        simp only [remove, hframe, Except.ok.injEq, Prod.mk.injEq] at h
        exact h.2 ▸ .refl id vs
      | some f =>
        simp only [remove, hframe, removeLocal, Except.ok.injEq, Prod.mk.injEq] at h
        exact h.2 ▸ .of_eq rfl rfl rfl
    | buffer =>
      simp only [remove, Except.ok.injEq, Prod.mk.injEq] at h
      exact h.2 ▸ ⟨get?_removeFor_ne vs.buffers hne name, rfl, rfl⟩
    | window =>
      simp only [remove, Except.ok.injEq, Prod.mk.injEq] at h
      exact h.2 ▸ ⟨rfl, get?_removeFor_ne vs.windows hne name, rfl⟩
    | tab =>
      simp only [remove, Except.ok.injEq, Prod.mk.injEq] at h
      exact h.2 ▸ ⟨rfl, rfl, get?_removeFor_ne vs.tabs hne name⟩

end Variables

/-! ### Runs against another editor -/

/-- Nothing that is kept for an editor has changed. -/
structure Session.SameFor (id : EditorId) (s t : Session) : Prop where
  vars : s.vars.SameFor id t.vars
  settings : s.settings.SameFor id t.settings

theorem Session.SameFor.refl (id : EditorId) (s : Session) : s.SameFor id s :=
  ⟨.refl id s.vars, .refl id s.settings⟩

theorem Session.SameFor.trans {id : EditorId} {s t u : Session} (h : s.SameFor id t)
    (h' : t.SameFor id u) : s.SameFor id u :=
  ⟨h.vars.trans h'.vars, h.settings.trans h'.settings⟩

/-- What is done for one editor leaves everything that is kept for another one the same. -/
theorem Effect.sameFor {l : Layer} {s t : State} (h : Effect l s t) {id : EditorId}
    (hne : id ≠ s.editor.id) : s.session.SameFor id t.session := by
  induction h with
  | refl => exact .refl id _
  | trans h _ ih ih' =>
    -- the editor against which it runs stays the same
    refine (ih hne).trans (ih' ?_)
    rw [h.rewritten.1]
    exact hne
  | statement _ ih | invocation _ ih => exact ih hne
  | call name _ _ _ ih =>
    -- a frame has variables of no editor
    have hbody := ih hne
    exact ⟨⟨hbody.vars.buffers, hbody.vars.windows, hbody.vars.tabs⟩, hbody.settings⟩
  | store h => exact ⟨Variables.sameFor_store hne h, .refl id _⟩
  | remove h => exact ⟨Variables.sameFor_remove hne h, .refl id _⟩
  | settings h => exact ⟨.refl id _, h.sameFor hne⟩
  | heap | define | deleteFunction | echo | reportError | goTo | deleteLines | bindArgument =>
    exact ⟨.of_eq rfl rfl rfl, .of_eq rfl rfl⟩

/-! ### Reachable sessions -/

namespace Session

/-- A new session only adds a listener to the settings it is over. -/
theorem arises_ofSettings {settings : Settings} {s : Session} (hsettings : settings.Arises)
    (h : ofSettings settings = .ok s) : s.settings.Arises := by
  unfold ofSettings at h
  rcases hv : settings.get .shared keywordSetting with e | v
  · simp [hv, bind, Except.bind] at h
  · rcases hk : classifierOf v with e | k
    · simp [hv, hk, bind, Except.bind] at h
    · rcases hlisten : settings.listen keywordSetting .keywordTable with e | settings'
      · simp [hv, hk, hlisten, bind, Except.bind] at h
      · simp only [hv, hk, hlisten, bind, Except.bind, pure, Except.pure, Except.ok.injEq] at h
        rw [← h]
        -- the classifier that is remembered is not part of what has come about
        exact (hsettings.listen hlisten).remember _

/-- The settings of a reachable session have come about by operations on settings. -/
theorem Reachable.arises {s : Session} (h : s.Reachable) : s.settings.Arises := by
  induction h with
  | new h => exact arises_ofSettings .initial h
  | script n script editor _ ih =>
    exact ih.rewritten (confined_runScript n script ⟨_, editor⟩).rewritten.2
  | statement n fuel st editor _ ih =>
    exact ih.rewritten
      (st.confined_execute (confined_callFunction n) fuel ⟨_, editor⟩).rewritten.2
  | expression n e editor _ ih =>
    exact ih.rewritten (e.confined_evaluate (confined_callFunction n) ⟨_, editor⟩).rewritten.2
  | call n name args site editor _ ih =>
    exact ih.rewritten (confined_callFunction n name args site ⟨_, editor⟩).rewritten.2
  | init script _ ih => exact ih.rewritten (script.rewritten_run ⟨0⟩ _)
  | write w scope name _ ih => exact ih.write w scope name
  | declare _ h ih => exact ih.declare h
  | listen _ h ih => exact ih.listen h
  | attach id _ ih => exact ih.register id
  | detach id _ ih => exact ih.forget id
  | notices notices _ ih => exact ih.remember _
  | other _ h ih =>
    rw [h]
    exact ih

end Session

/-- **Editors do not interfere.**  A script is run against an editor, to its end, to an error
or until the fuel is spent, in a session whose settings have come about in any way, as those
of a reachable session have (`Session.Reachable.arises`).  For every other editor the buffer,
window and tab variables are then what they were, it is known to the settings if and only if it
was, and if it is, each setting that is kept per editor has there the value that it had. -/
theorem otherEditors_run (n : Nat) (script : List Statement) (s : State)
    (hs : s.session.settings.Arises) {id : EditorId} (hid : id ≠ s.editor.id) :
    let t := (runScript n script s).2
    t.session.vars.buffers.get? id = s.session.vars.buffers.get? id ∧
      t.session.vars.windows.get? id = s.session.vars.windows.get? id ∧
      t.session.vars.tabs.get? id = s.session.vars.tabs.get? id ∧
      (t.session.settings.own.get? id).isSome = (s.session.settings.own.get? id).isSome ∧
      ((s.session.settings.own.get? id).isSome →
        ∀ name d, s.session.settings.declaration? name = .ok d → d.kind = .perEditor →
          t.session.settings.get (.editor id) name =
            s.session.settings.get (.editor id) name) := by
  intro t
  have h : s.session.SameFor id t.session := (confined_runScript n script s).sameFor hid
  refine ⟨h.vars.buffers, h.vars.windows, h.vars.tabs, congrArg Option.isSome h.settings.own, ?_⟩
  -- the own value is the same, and the shared one is not asked for
  intro hknown name d hd hkind
  exact hs.typed.get_eq h.settings hknown hd hkind

/-- A function that is called for one editor assigns a buffer variable and the shared value of
a setting; another editor has a variable of that name, and a value of its own of the setting. -/
theorem otherEditors_run_of_assign :
    ∃ (s : State) (script : List Statement) (id : EditorId),
      s.session.settings.Arises ∧ id ≠ s.editor.id ∧
      ((runScript 3 script s).2.session.vars.buffers.get? s.editor.id =
          some (Dict.empty.insert "x" (.integer 2)) ∧
        (runScript 3 script s).2.session.settings.get .shared "ts" = .ok (.number 2)) ∧
      (runScript 3 script s).2.session.vars.buffers.get? id =
        some (Dict.empty.insert "x" (.integer 1)) ∧
      (runScript 3 script s).2.session.settings.get (.editor id) "ts" = .ok (.number 8) := by
  let tabstop := (Catalogue.bounded "tabstop" "ts" 8 1 999).perEditor
  have hsettings : ((Settings.empty.declareAll [tabstop]).register ⟨2⟩).Arises :=
    (Settings.Arises.empty.declareAll _).register ⟨2⟩
  have hid : (⟨2⟩ : EditorId) ≠ ⟨1⟩ := by decide
  -- whatever the script is, as long as it runs against the other editor
  have hkept (script : List Statement) (s : State)
      (hs : s.session.settings = (Settings.empty.declareAll [tabstop]).register ⟨2⟩)
      (hvars : s.session.vars.buffers =
        PerEditor.empty.set ⟨2⟩ (Dict.empty.insert "x" (.integer 1)))
      (heditor : s.editor.id = ⟨1⟩) :
      (runScript 3 script s).2.session.vars.buffers.get? ⟨2⟩ =
          some (Dict.empty.insert "x" (.integer 1)) ∧
        (runScript 3 script s).2.session.settings.get (.editor ⟨2⟩) "ts" = .ok (.number 8) := by
    obtain ⟨hbuffers, -, -, -, hvalues⟩ :=
      otherEditors_run 3 script s (hs ▸ hsettings) (heditor ▸ hid)
    rw [hs] at hvalues
    rw [hvars] at hbuffers
    exact ⟨hbuffers, hvalues rfl "ts" tabstop rfl rfl⟩
  refine ⟨
    { session :=
        { (default : Session) with
          vars :=
            { Variables.initial with
              buffers := PerEditor.empty.set ⟨2⟩ (Dict.empty.insert "x" (.integer 1)) }
          settings := _ }
      editor := .ofString ⟨1⟩ "" },
    [.define ⟨.globals, "F", [], [], false, {}, false⟩
        [.command (.assign (.variable ⟨some .buffer, "x"⟩) .assign (.integer 2)),
          .command (.assign (.setting .shared "ts") .assign (.integer 2))],
      .command (.call none "F" [])],
    ⟨2⟩, hsettings, hid, by cbv, hkept _ _ rfl rfl rfl⟩

end ModalScript
