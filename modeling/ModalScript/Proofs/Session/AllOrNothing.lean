/-
An item of a settings command that fails.

A write fails before it has stored anything, unless a listener refuses the new value
(`Settings.Unopposed.eq_of_error`).  An item of `set` may write two values, that of the editor
and the shared one, and the second write can fail when the first one is done.  Most items write
the same value twice, and a value that has passed the check once passes it again
(`SettingWrite.Steady`).  Only an edit makes two values of two current ones, and there it is
possible that the first is accepted and the second is not (`HalfDone`).

Main result: an item that fails has changed neither the value of the editor nor the shared
value of any setting, unless it is such an edit (`Session.allOrNothing_iff`).
-/
import ModalScript.Proofs.Session.Isolation
import ModalScript.Proofs.Setting.Types

namespace ModalScript

/-! ### Listeners who refuse nothing -/

/-- The listener accepts every change that it is told of, after whatever it has heard before. -/
def Listener.Accepting : Listener → Prop
  | .witness _ answer => ∀ heard change, answer heard change = .ok ()
  | .keywordTable => True

/-- Where all who listen accept, and the classifier can be made, the announcement ends well. -/
theorem announce_of_accepting {change : SettingChange} {ls : List Listener}
    (hls : ∀ l ∈ ls, l.Accepting)
    (hkeywords : .keywordTable ∈ ls → ∃ k, classifierOf change.new = .ok k) (a : Audience) :
    (announce change ls a).1 = .ok () := by
  induction ls generalizing a with
  | nil => rfl
  | cons l ls ih =>
    rw [List.forall_mem_cons] at hls
    have hhear : ∃ a', l.hear change a = (.ok (), a') := by
      cases l with
      | witness tag answer => exact ⟨_, Prod.ext (hls.1 _ _) rfl⟩
      | keywordTable =>
        -- the keeper of the classifier refuses what no classifier can be made of
        obtain ⟨k, hk⟩ := hkeywords List.mem_cons_self
        exact ⟨_, Listener.hear_keywordTable hk a⟩
    obtain ⟨a', ha'⟩ := hhear
    simp only [announce, ha']
    exact ih hls.2 (fun hmem => hkeywords (List.mem_cons_of_mem l hmem)) a'

namespace Settings

variable {s t : Settings} {d : SettingDeclaration} {scope : SettingScope} {v : SettingValue}
  {id : EditorId} {name : String} {w : SettingWrite} {e : SettingError}

/-- Settings of right types, where nobody refuses a value that passes the check. -/
structure Unopposed (s : Settings) : Prop where
  typed : s.Typed
  keywords : s.KeywordsFollow
  accepting : ∀ p ∈ s.listeners, p.2.Accepting

namespace Unopposed

/-- A write leaves it so that nobody refuses. -/
theorem write (h : s.Unopposed) (w : SettingWrite) (scope : SettingScope) (name : String) :
    (w.run scope name s).2.Unopposed := by
  refine ⟨h.typed.write w scope name, h.keywords.write w scope name, ?_⟩
  refine write_induction (P := fun s => ∀ p ∈ s.listeners, p.2.Accepting) h.accepting
    fun d v _ _ _ => ?_
  show ∀ p ∈ (s.store d (d.effectiveScope scope) v).listeners, p.2.Accepting
  rw [listeners_store]
  exact h.accepting

/-- A value that passes the check is committed. -/
theorem commit_eq_ok (h : s.Unopposed) (hd : d ∈ s.declarations)
    (hcheck : d.check.run v = .ok ()) (scope : SettingScope) : (commit d scope v s).1 = .ok () := by
  rw [commit_accepted hcheck]
  show (announce _ ((s.store d (d.effectiveScope scope) v).listenersOf d) _).1 = .ok ()
  rw [listenersOf_store]
  refine announce_of_accepting (fun l hl => ?_) (fun hmem => ?_) _
  · obtain ⟨p, hp, rfl⟩ := List.mem_map.mp hl
    exact h.accepting p (List.mem_of_mem_filter hp)
  · -- the keeper of the classifier hears of one setting only
    have hname : d.name = keywordSetting := by
      by_contra hname
      exact h.keywords.keywordTable_notMem_listenersOf hname hmem
    rw [(h.keywords.declared d hd hname).2] at hcheck
    obtain ⟨-, k, -, -, hk⟩ := classifierOf_of_check hcheck
    exact ⟨k, hk⟩

/-- A write fails before it has done anything, and this for one of two reasons. -/
theorem eq_of_error (h : s.Unopposed) (hd : s.declaration? name = .ok d)
    (hw : w.run scope name s = (.error e, t)) :
    t = s ∧ ∀ v, w.wanted name d (s.current scope d) = .ok v →
      ¬ (w.isEdit ∧ v = s.current scope d) ∧ d.check.run v ≠ .ok () := by
  rw [w.run_of_declared hd] at hw
  cases hv : w.wanted name d (s.current scope d) with
  | error e' =>
    rw [hv] at hw
    cases hw
    exact ⟨rfl, fun _ hv => nomatch hv⟩
  | ok v =>
    simp only [hv] at hw
    split at hw
    · cases hw
    · next hidle =>
      cases hcheck : d.check.run v with
      | ok =>
        -- a value that passes the check would have been committed
        have hok := h.commit_eq_ok (mem_of_declaration? hd) hcheck scope
        rw [hw] at hok
        cases hok
      | error reason =>
        rw [commit_refused hcheck] at hw
        cases hw
        refine ⟨rfl, fun v' hv' => ?_⟩
        obtain rfl := Except.ok.inj hv'
        exact ⟨hidle, by rw [hcheck]; exact fun hok => nomatch hok⟩

end Unopposed

/-! ### One write behind the other -/

/-- The write succeeds for an editor and stores something there, but fails at the shared
scope. -/
def StopsHalfway (s : Settings) (w : SettingWrite) (d : SettingDeclaration) (id : EditorId) :
    Prop :=
  ∃ v, w.wanted d.name d (s.current (.editor id) d) = .ok v ∧
    ¬ (w.isEdit ∧ v = s.current (.editor id) d) ∧ d.check.run v = .ok () ∧
    ∀ v', w.wanted d.name d (s.sharedValue d) = .ok v' →
      ¬ (w.isEdit ∧ v' = s.sharedValue d) ∧ d.check.run v' ≠ .ok ()

/-- A write that succeeds leaves everything alone, or its value has passed the check. -/
theorem exists_wanted_of_ok (hd : s.declaration? name = .ok d)
    (hw : w.run scope name s = (.ok (), t)) :
    ∃ v, w.wanted name d (s.current scope d) = .ok v ∧
      (t = s ∨ ¬ (w.isEdit ∧ v = s.current scope d) ∧ d.check.run v = .ok ()) := by
  rw [w.run_of_declared hd] at hw
  cases hv : w.wanted name d (s.current scope d) with
  | error e =>
    rw [hv] at hw
    cases hw
  | ok v =>
    simp only [hv] at hw
    refine ⟨v, rfl, ?_⟩
    split at hw
    · cases hw
      exact .inl rfl
    · next hidle =>
      cases hcheck : d.check.run v with
      | ok => exact .inr ⟨hidle, rfl⟩
      | error reason =>
        rw [commit_refused hcheck] at hw
        cases hw

/-- What a write for an editor has stored is there, and it has not touched the shared value. -/
theorem current_of_write (hd : s.declaration? d.name = .ok d) (hkind : d.kind = .perEditor)
    (hv : w.wanted d.name d (s.current (.editor id) d) = .ok v)
    (hidle : ¬ (w.isEdit ∧ v = s.current (.editor id) d)) (hcheck : d.check.run v = .ok ()) :
    let t := (w.run (.editor id) d.name s).2
    t.declaration? d.name = .ok d ∧ t.current .shared d = s.sharedValue d ∧
      t.current (.editor id) d = v := by
  have hscope : d.effectiveScope (.editor id) = .editor id := by
    simp only [SettingDeclaration.effectiveScope, hkind]
  have hwrite : w.run (.editor id) d.name s =
      (s.store d (.editor id) v).notify d (s.changeOf d (.editor id) v) := by
    rw [w.run_of_declared hd, hv]
    simp only [if_neg hidle]
    rw [commit_accepted hcheck, hscope]
  rw [hwrite]
  refine ⟨?_, ?_, ?_⟩
  · rw [← hd]
    simp only [declaration?, notify, declarations_store]
  · show (s.store d (.editor id) v).sharedValue d = s.sharedValue d
    rw [store_editor]
    rfl
  · rw [current, hscope]
    exact valueAt_store s d (.editor id) v

/-- If the second of two writes fails, the first one has stored nothing, unless the write is
one that stops half-way. -/
theorem Unopposed.eq_of_second_error (h : s.Unopposed) (hd : s.declaration? d.name = .ok d)
    (hkind : d.kind = .perEditor) (hstops : ¬ s.StopsHalfway w d id) {u : Settings}
    (hfirst : w.run (.editor id) d.name s = (.ok (), t))
    (hsecond : w.run .shared d.name t = (.error e, u)) : u = s := by
  obtain ⟨v, hv, rfl | ⟨hidle, hcheck⟩⟩ := exists_wanted_of_ok hd hfirst
  · exact (h.eq_of_error hd hsecond).1
  · obtain ⟨hd', hshared, -⟩ := current_of_write hd hkind hv hidle hcheck
    have ht := h.write w (.editor id) d.name
    rw [hfirst] at hd' hshared ht
    obtain ⟨-, hrefused⟩ := ht.eq_of_error hd' hsecond
    rw [hshared] at hrefused
    -- the first has stored a value and the second is refused: that is to stop half-way
    exact absurd ⟨v, hv, hidle, hcheck, hrefused⟩ hstops

/-- The second of two writes that stop half-way fails, and the first one has been done. -/
theorem Unopposed.error_of_stops (h : s.Unopposed) (hd : s.declaration? d.name = .ok d)
    (hkind : d.kind = .perEditor) (hstops : s.StopsHalfway w d id) :
    ∃ v t e, w.wanted d.name d (s.current (.editor id) d) = .ok v ∧
      w.run (.editor id) d.name s = (.ok (), t) ∧ w.run .shared d.name t = (.error e, t) ∧
      t.current (.editor id) d = v := by
  obtain ⟨v, hv, hidle, hcheck, hrefused⟩ := hstops
  obtain ⟨hd', hshared, hcurrent⟩ := current_of_write hd hkind hv hidle hcheck
  have hfirst : (w.run (.editor id) d.name s).1 = .ok () := by
    rw [w.run_of_declared hd, hv]
    simp only [if_neg hidle]
    exact h.commit_eq_ok (mem_of_declaration? hd) hcheck _
  have hsecond : ∃ e, w.run .shared d.name (w.run (.editor id) d.name s).2 =
      (.error e, (w.run (.editor id) d.name s).2) := by
    rw [w.run_of_declared hd', hshared]
    cases hv' : w.wanted d.name d (s.sharedValue d) with
    | error e => exact ⟨e, rfl⟩
    | ok v' =>
      obtain ⟨hidle', hcheck'⟩ := hrefused v' hv'
      simp only [if_neg hidle']
      cases hreason : d.check.run v' with
      | ok => exact absurd hreason hcheck'
      | error reason => exact ⟨_, commit_refused hreason⟩
  obtain ⟨e, hsecond⟩ := hsecond
  exact ⟨v, _, e, hv, Prod.ext hfirst rfl, hsecond, hcurrent⟩

end Settings

/-! ### Writes that do not look at the current value -/

namespace SettingWrite

/-- Whatever the current value is, as long as it has the right type, the write asks for the same
value. -/
def Steady (w : SettingWrite) : Prop :=
  w.isEdit = false ∧ ∀ name d c c' v, c.type = d.type → c'.type = d.type →
    w.wanted name d c = .ok v → w.wanted name d c' = .ok v

/-- To turn a flag on or off it does not matter how it is. -/
theorem steady_ofFlag {b : Bool} {name : String} {c c' v : SettingValue} (htype : c'.type = c.type)
    (h : ofFlag name (fun _ => b) c = .ok v) : ofFlag name (fun _ => b) c' = .ok v := by
  cases c with
  | flag _ =>
    cases c' with
    | flag _ => exact h
    | number | text | tokens => cases htype
  | number | text | tokens => cases h

/-- A write that asks for the same value twice does not stop half-way. -/
theorem Steady.not_stops {w : SettingWrite} (hw : w.Steady) {s : Settings} (hs : s.Typed)
    {d : SettingDeclaration} (hd : d ∈ s.declarations) (id : EditorId) :
    ¬ s.StopsHalfway w d id := by
  rintro ⟨v, hv, -, hcheck, hrefused⟩
  have hsame := hw.2 d.name d _ _ v (hs.holds_current hd _) (hs.holds_sharedValue hd) hv
  exact (hrefused v hsame).2 hcheck

end SettingWrite

/-! ### Items -/

namespace SetRun

open Settings

variable {kind : SetKind} {id : EditorId} {d : SettingDeclaration} {w : SettingWrite}
  {p q : SetProgress} {e : ExecError}

/-- If the computation fails, the settings are those from before. -/
def Whole (m : SetRun Unit) (p : SetProgress) : Prop :=
  ∀ e q, m p = (.error e, q) → q.settings = p.settings

/-- Several writes, the first of which decides if it fails. -/
theorem forM_cons_apply (scope : SettingScope) (scopes : List SettingScope)
    (f : SettingScope → Configure Unit) (p : SetProgress) :
    ((scope :: scopes).forM fun scope => configure (f scope)) p =
      match f scope p.settings with
      | (.ok (), settings) => (scopes.forM fun scope => configure (f scope)) { p with settings }
      | (.error e, settings) => (.error (.setting e), { p with settings }) := by
  show (configure (f scope) >>= fun _ => scopes.forM fun scope => configure (f scope)) p = _
  rw [bind_apply]
  unfold configure
  rcases f scope p.settings with ⟨r, settings⟩
  cases r <;> rfl

/-- A single write fails before it has done anything. -/
theorem whole_write (h : p.settings.Unopposed) (hd : p.settings.declaration? d.name = .ok d)
    (scope : SettingScope) :
    Whole ([scope].forM fun scope => configure (w.run scope d.name)) p := by
  intro e q hq
  rw [forM_cons_apply] at hq
  rcases hw : w.run scope d.name p.settings with ⟨r, t⟩
  rw [hw] at hq
  cases r with
  | ok => cases hq
  | error e =>
    cases hq
    exact (h.eq_of_error hd hw).1

/-- So do two writes, unless they stop half-way. -/
theorem whole_writes (h : p.settings.Unopposed) (hd : p.settings.declaration? d.name = .ok d)
    (hkind : d.kind = .perEditor) (hstops : ¬ p.settings.StopsHalfway w d id) :
    Whole ([.editor id, .shared].forM fun scope => configure (w.run scope d.name)) p := by
  intro e q hq
  rw [forM_cons_apply] at hq
  rcases hfirst : w.run (.editor id) d.name p.settings with ⟨r, t⟩
  rw [hfirst] at hq
  cases r with
  | error e =>
    cases hq
    exact (h.eq_of_error hd hfirst).1
  | ok =>
    simp only [forM_cons_apply] at hq
    rcases hsecond : w.run .shared d.name t with ⟨r, u⟩
    rw [hsecond] at hq
    cases r with
    | ok => cases hq
    | error e =>
      cases hq
      exact h.eq_of_second_error hd hkind hstops hfirst hsecond

/-- An item that writes a setting fails before it has done anything, unless it stops
half-way. -/
theorem whole_onAll (h : p.settings.Unopposed) (hd : d ∈ p.settings.declarations)
    (hstops : kind = .both → d.kind = .perEditor → ¬ p.settings.StopsHalfway w d id) :
    Whole (onAll kind id d fun scope => w.run scope d.name) p := by
  have hlookup := h.typed.declaration?_name hd
  unfold onAll
  cases kind with
  | shared => exact whole_write h hlookup _
  | own =>
    cases hkind : d.kind with
    | shared => exact whole_write h hlookup _
    | perEditor => exact whole_write h hlookup _
  -- only `set` writes twice, and only where the setting is kept per editor
  | both =>
    cases hkind : d.kind with
    | shared => exact whole_write h hlookup _
    | perEditor => exact whole_writes h hlookup hkind (hstops rfl hkind)

/-- Showing a setting does not fail. -/
theorem whole_showSetting (scope : SettingScope) (d : SettingDeclaration) (p : SetProgress) :
    Whole (showSetting scope d) p :=
  fun _ _ hq => nomatch hq

theorem whole_throw (e : ExecError) (p : SetProgress) : Whole (throw e) p := by
  intro e' q hq
  cases hq
  rfl

/-- What a flag is turned to is made out once, for both writes. -/
theorem whole_flip (h : p.settings.Unopposed) (hd : d ∈ p.settings.declarations) :
    Whole (flip kind id d) p := by
  intro e q hq
  have hget : (get : SetRun SetProgress) p = (.ok p, p) := rfl
  rw [flip, bind_apply, hget] at hq
  cases hon : p.settings.isOn (kind.readScope id) d.name with
  | error e' =>
    simp only [hon] at hq
    exact whole_throw _ p e q hq
  | ok b =>
    simp only [hon] at hq
    have hsteady : (SettingWrite.value (.flag !b)).Steady := ⟨rfl, fun _ _ _ _ _ _ _ hv => hv⟩
    exact whole_onAll (w := .value (.flag !b)) h hd
      (fun _ _ => hsteady.not_stops h.typed hd id) e q hq

/-- Whatever is done with a setting, it is done as a whole or not at all, unless it is an edit
that stops half-way. -/
theorem whole_act (h : p.settings.Unopposed) (hd : d ∈ p.settings.declarations)
    {action : SetAction} (hstops : ∀ e operand, action = .edit e operand → kind = .both →
      d.kind = .perEditor → ¬ p.settings.StopsHalfway (.edit e operand) d id) :
    Whole (act kind id d action) p := by
  -- all writes but edits ask for the same value for the editor and at the shared scope
  have hsteady {w : SettingWrite} (hw : w.Steady) :
      Whole (onAll kind id d fun scope => w.run scope d.name) p :=
    whole_onAll h hd fun _ _ => hw.not_stops h.typed hd id
  cases action with
  | plain =>
    simp only [act]
    split
    · exact hsteady (w := .turnOn)
        ⟨rfl, fun _ _ _ _ _ hc hc' hv => SettingWrite.steady_ofFlag (hc'.trans hc.symm) hv⟩
    · exact whole_showSetting _ d p
  | «show» => exact whole_showSetting _ d p
  | disable =>
    exact hsteady (w := .turnOff)
      ⟨rfl, fun _ _ _ _ _ hc hc' hv => SettingWrite.steady_ofFlag (hc'.trans hc.symm) hv⟩
  | toggle =>
    simp only [act]
    split
    · exact whole_flip h hd
    · exact whole_throw _ p
  | reset => exact hsteady (w := .reset) ⟨rfl, fun _ _ _ _ _ _ _ hv => hv⟩
  | assign text => exact hsteady (w := .text text) ⟨rfl, fun _ _ _ _ _ _ _ hv => hv⟩
  | edit e operand =>
    exact whole_onAll (w := .edit e operand) h hd (hstops e operand rfl)

/-- A setting that an item means is declared, and it is edited only by an item that says so under
its name. -/
theorem of_resolve {s : Settings} {name : String} {action action' : SetAction}
    (h : resolve s name action = .ok (d, action')) :
    d ∈ s.declarations ∧ (∀ e operand, action' = .edit e operand →
      action = .edit e operand ∧ s.declaration? name = .ok d) := by
  -- a prefix like `no` is taken off where the name without it is that of a flag
  have hnegated {mark : String} {meant : SetAction}
      {r : Except ExecError (SettingDeclaration × SetAction)}
      (hr : resolve.negated s name mark meant = some r) (hok : r = .ok (d, action')) :
      d ∈ s.declarations ∧ action' = meant := by
    unfold resolve.negated at hr
    split at hr
    · cases hr
    · split at hr
      · cases hr
      · next d' hd' =>
        split at hr
        · cases hr
          cases hok
          exact ⟨mem_of_declaration? hd', rfl⟩
        · cases hr
          cases hok
  unfold resolve at h
  split at h
  · next hd =>
    cases h
    exact ⟨mem_of_declaration? hd, fun e operand he => ⟨he, hd⟩⟩
  · split at h
    · next r hr =>
      obtain ⟨hd, rfl⟩ := hnegated hr h
      exact ⟨hd, fun _ _ he => nomatch he⟩
    · cases hr : resolve.negated s name "inv" .toggle with
      | none =>
        rw [hr] at h
        cases h
      | some r =>
        rw [hr] at h
        obtain ⟨hd, rfl⟩ := hnegated hr h
        exact ⟨hd, fun _ _ he => nomatch he⟩
  · cases h

/-- An item that cannot be read is refused before anything is done. -/
theorem runItem_apply (kind : SetKind) (id : EditorId) (item : String) (p : SetProgress) :
    runItem kind id item p =
      match SetItem.parse item with
      | .ok item => applyItem kind id item p
      | .error e => (.error e, p) := by
  show (liftM (SetItem.parse item) >>= fun item => applyItem kind id item) p = _
  rw [bind_apply]
  cases SetItem.parse item <;> rfl

/-- So is one that means no setting. -/
theorem applyItem_setting (kind : SetKind) (id : EditorId) (name : String) (action : SetAction)
    (p : SetProgress) :
    applyItem kind id (.setting name action) p =
      match resolve p.settings name action with
      | .ok (d, action) => act kind id d action p
      | .error e => (.error e, p) := by
  show (liftM (resolve p.settings name action) >>= fun r => act kind id r.1 r.2) p = _
  rw [bind_apply]
  cases resolve p.settings name action <;> rfl

/-- There is one way to ask for the reset of all settings. -/
theorem eq_of_parse_resetAll {item : String} (h : SetItem.parse item = .ok .resetAll) :
    item = "all&" := by
  unfold SetItem.parse at h
  split at h
  · cases h
  · split at h
    · assumption
    · dsimp only at h
      split at h
      · cases h
      · cases h

/-- Showing settings does not fail. -/
theorem whole_showAll (kind : SetKind) (id : EditorId) (p : SetProgress) :
    Whole (applyItem kind id .showAll) p := by
  have hshow (scope : SettingScope) (ds : List SettingDeclaration) (p : SetProgress) :
      (ds.forM (showSetting scope) p).1 = .ok () := by
    induction ds generalizing p with
    | nil => rfl
    | cons d ds ih => exact ih _
  intro e q hq
  have hok : (applyItem kind id .showAll p).1 = .ok () := hshow _ p.settings.declarations p
  rw [hq] at hok
  cases hok

/-! ### All or nothing -/

/-- If the item fails, no setting has another value than before, neither for the editor nor at
the shared scope. -/
def AllOrNothing (kind : SetKind) (id : EditorId) (item : String) (p : SetProgress) : Prop :=
  ∀ e q, runItem kind id item p = (.error e, q) → ∀ d ∈ p.settings.declarations,
    q.settings.current (.editor id) d = p.settings.current (.editor id) d ∧
      q.settings.sharedValue d = p.settings.sharedValue d

/-- The item is one of `set` that edits a setting kept for each editor.  The edit of the editor's
own value makes another one that passes the check, and the edit of the shared value fails, or
makes another one that does not pass the check. -/
def HalfDone (kind : SetKind) (id : EditorId) (item : String) (s : Settings) : Prop :=
  kind = .both ∧ ∃ name e operand d v,
    SetItem.parse item = .ok (.setting name (.edit e operand)) ∧ s.declaration? name = .ok d ∧
    d.kind = .perEditor ∧ e.apply d (s.current (.editor id) d) operand = .ok v ∧
    v ≠ s.current (.editor id) d ∧ d.check.run v = .ok () ∧
    ∀ w, e.apply d (s.sharedValue d) operand = .ok w →
      w ≠ s.sharedValue d ∧ d.check.run w ≠ .ok ()

/-- To do the half of an item is to stop half-way with an edit. -/
theorem stopsHalfway_edit_iff {s : Settings} {e : Edit} {operand : String} :
    s.StopsHalfway (.edit e operand) d id ↔
      ∃ v, e.apply d (s.current (.editor id) d) operand = .ok v ∧
        v ≠ s.current (.editor id) d ∧ d.check.run v = .ok () ∧
        ∀ w, e.apply d (s.sharedValue d) operand = .ok w →
          w ≠ s.sharedValue d ∧ d.check.run w ≠ .ok () := by
  simp [StopsHalfway, SettingWrite.wanted, SettingWrite.isEdit]

/-- An item that is not half done leaves nothing behind when it fails. -/
theorem whole_runItem (h : p.settings.Unopposed) {item : String} (hitem : item ≠ "all&")
    (hhalf : ¬ HalfDone kind id item p.settings) : Whole (runItem kind id item) p := by
  intro e q hq
  rw [runItem_apply] at hq
  cases hparse : SetItem.parse item with
  | error e =>
    rw [hparse] at hq
    cases hq
    rfl
  | ok i =>
    rw [hparse] at hq
    cases i with
    | showAll => exact whole_showAll kind id p e q hq
    | resetAll => exact absurd (eq_of_parse_resetAll hparse) hitem
    | setting name action =>
      simp only [applyItem_setting] at hq
      cases hresolve : resolve p.settings name action with
      | error e =>
        rw [hresolve] at hq
        cases hq
        rfl
      | ok r =>
        obtain ⟨d, action'⟩ := r
        rw [hresolve] at hq
        obtain ⟨hd, hedit⟩ := of_resolve hresolve
        -- an edit that stops half-way is just what is half done
        refine whole_act h hd (fun op operand haction hkind hown hstops => ?_) e q hq
        obtain ⟨rfl, hname⟩ := hedit op operand haction
        obtain ⟨v, hv⟩ := stopsHalfway_edit_iff.mp hstops
        exact hhalf ⟨hkind, name, op, operand, d, v, hparse, hname, hown, hv⟩

/-- An item that is half done fails, and the editor has a new value. -/
theorem exists_of_halfDone (h : p.settings.Unopposed) {item : String}
    (hhalf : HalfDone kind id item p.settings) :
    ∃ e q, runItem kind id item p = (.error e, q) ∧ ∃ d ∈ p.settings.declarations,
      q.settings.current (.editor id) d ≠ p.settings.current (.editor id) d := by
  obtain ⟨rfl, name, op, operand, d, v, hparse, hname, hkind, hv, hne, hrest⟩ := hhalf
  have hd := mem_of_declaration? hname
  have hresolve : resolve p.settings name (.edit op operand) = .ok (d, .edit op operand) := by
    unfold resolve
    rw [hname]
  obtain ⟨v', t, e, hv', hfirst, hsecond, hcurrent⟩ :=
    h.error_of_stops (h.typed.declaration?_name hd) hkind
      (stopsHalfway_edit_iff.mpr ⟨v, hv, hne, hrest⟩)
  obtain rfl := Except.ok.inj (hv.symm.trans hv')
  have hact : act .both id d (.edit op operand) p =
      (.error (.setting e), { p with settings := t }) := by
    show onAll .both id d (fun scope => (SettingWrite.edit op operand).run scope d.name) p = _
    unfold onAll
    rw [hkind]
    show ([.editor id, .shared].forM fun scope =>
      configure ((SettingWrite.edit op operand).run scope d.name)) p = _
    rw [forM_cons_apply, hfirst]
    simp only [forM_cons_apply, hsecond]
  refine ⟨.setting e, { p with settings := t }, ?_, d, hd, ?_⟩
  · rw [runItem_apply, hparse]
    simp only [applyItem_setting, hresolve]
    exact hact
  · exact hcurrent.symm ▸ hne

end SetRun

/-- **All or nothing.**  In a reachable session nobody refuses a value that passes the check of
its setting.  An item of `set`, `setlocal` or `setglobal`, for whatever editor, is one that does
not reset everything.  Then it is applied as a whole or not at all, that is, if it fails, then
every setting has for the editor the value it had, and the shared value it had; with one
exception: that it is a relative change by `set` that succeeds for the editor, and which cannot
be made, or is not accepted, at the shared scope. -/
theorem Session.allOrNothing_iff {s : Session} (hs : s.Reachable)
    (haccepting : ∀ p ∈ s.settings.listeners, p.2.Accepting) (kind : SetKind) (id : EditorId)
    {item : String} (hitem : item ≠ "all&") (shown : List String) :
    SetRun.AllOrNothing kind id item ⟨s.settings, shown⟩ ↔
      ¬ SetRun.HalfDone kind id item s.settings := by
  have h : s.settings.Unopposed := ⟨hs.arises.typed, hs.keywordsFollow, haccepting⟩
  constructor
  · intro hall hhalf
    obtain ⟨e, q, hq, d, hd, hne⟩ := SetRun.exists_of_halfDone (p := ⟨s.settings, shown⟩) h hhalf
    exact hne (hall e q hq d hd).1
  · intro hhalf e q hq d _
    have hsame := SetRun.whole_runItem (p := ⟨s.settings, shown⟩) h hitem hhalf e q hq
    rw [hsame]
    exact ⟨rfl, rfl⟩

/-- In a new session nobody refuses anything. -/
theorem Session.exists_new :
    ∃ s : Session, s.Reachable ∧ (∀ p ∈ s.settings.listeners, p.2.Accepting) ∧
      ∃ audience, s.settings =
        { Settings.initial with listeners := [(keywordSetting, .keywordTable)], audience } := by
  obtain ⟨s, hs⟩ : ∃ s, ofSettings .initial = .ok s := ⟨_, rfl⟩
  obtain ⟨audience, hsettings⟩ := settings_of_new hs
  refine ⟨s, .new hs, ?_, audience, hsettings⟩
  rw [hsettings]
  exact List.forall_mem_singleton.mpr trivial

/-- A value that is out of bounds is assigned for an editor and at the shared scope. -/
theorem Session.allOrNothing_of_assignment :
    ∃ s : Session, s.Reachable ∧ (∀ p ∈ s.settings.listeners, p.2.Accepting) ∧
      (SetRun.runItem .both ⟨0⟩ "sw=1000" ⟨s.settings, []⟩).1 =
        .error (.setting (.rejected "shiftwidth" "1000" "1000 is outside 0..=999")) ∧
      SetRun.AllOrNothing .both ⟨0⟩ "sw=1000" ⟨s.settings, []⟩ := by
  obtain ⟨s, hreach, haccepting, audience, hsettings⟩ := exists_new
  -- the item assigns and does not edit
  have hhalf : ¬ SetRun.HalfDone .both ⟨0⟩ "sw=1000" s.settings := by
    rintro ⟨-, name, e, operand, d, v, hparse, -⟩
    have hassign : SetItem.parse "sw=1000" = .ok (.setting "sw" (.assign "1000")) := by cbv
    rw [hassign] at hparse
    cases hparse
  refine ⟨s, hreach, haccepting, ?_,
    (allOrNothing_iff hreach haccepting .both ⟨0⟩ (by decide) []).mpr hhalf⟩
  rw [hsettings]
  cbv

/-- The shared value is as great as it can be, an editor has a small one of its own, and `set`
adds to both. -/
theorem Session.not_allOrNothing_of_edit :
    ∃ s : Session, s.Reachable ∧ (∀ p ∈ s.settings.listeners, p.2.Accepting) ∧
      s.settings.get .shared "sw" = .ok (.number 999) ∧
      s.settings.get (.editor ⟨0⟩) "sw" = .ok (.number 1) ∧
      ¬ SetRun.AllOrNothing .both ⟨0⟩ "sw+=1" ⟨s.settings, []⟩ := by
  let d := (Catalogue.bounded "shiftwidth" "sw" 8 0 999).perEditor
  obtain ⟨s, hreach, haccepting, audience, hsettings⟩ := exists_new
  have hunopposed : s.settings.Unopposed := ⟨hreach.arises.typed, hreach.keywordsFollow, haccepting⟩
  have hd : s.settings.declaration? d.name = .ok d := by
    rw [hsettings]
    rfl
  -- the shared value is written first, and then that of the editor
  let shared : SettingWrite := .value (.number 999)
  let own : SettingWrite := .value (.number 1)
  let s₁ := (shared.run .shared d.name s.settings).2
  let s₂ := (own.run (.editor ⟨0⟩) d.name s₁).2
  have hs₁ : s₁.declaration? d.name = .ok d ∧ s₁.sharedValue d = .number 999 := by
    have hwrite : s₁ = ((s.settings.store d .shared (.number 999)).notify d
        (s.settings.changeOf d .shared (.number 999))).2 := by
      show (shared.run .shared d.name s.settings).2 = _
      rw [shared.run_of_declared hd]
      rfl
    rw [hwrite]
    exact ⟨hd, Settings.valueAt_store s.settings d .shared _⟩
  obtain ⟨hd₂, hshared, hown⟩ : s₂.declaration? d.name = .ok d ∧
      s₂.current .shared d = .number 999 ∧ s₂.current (.editor ⟨0⟩) d = .number 1 := by
    rw [← hs₁.2]
    exact Settings.current_of_write hs₁.1 rfl rfl (fun h => nomatch h.1) rfl
  have hunopposed₂ : s₂.Unopposed := (hunopposed.write shared _ _).write own _ _
  have hlookup : s₂.declaration? "sw" = .ok d :=
    hunopposed₂.typed.resolves d (Settings.mem_of_declaration? hd₂) "sw" rfl
  -- one more than 1 is accepted for the editor, and one more than 999 is not
  have hhalf : SetRun.HalfDone .both ⟨0⟩ "sw+=1" s₂ := by
    have hparse : SetItem.parse "sw+=1" = .ok (.setting "sw" (.edit .append "1")) := by cbv
    refine ⟨rfl, "sw", .append, "1", d, .number 2, hparse, hlookup, rfl, ?_, ?_, rfl, ?_⟩
    · rw [hown]
      cbv
    · rw [hown]
      decide
    · intro w hw
      have hsum : Edit.apply .append d (.number 999) "1" = .ok (.number 1000) := by cbv
      rw [show s₂.sharedValue d = .number 999 from hshared] at hw ⊢
      obtain rfl := Except.ok.inj (hsum.symm.trans hw)
      exact ⟨by decide, by decide⟩
  refine ⟨{ s with settings := s₂ }, (hreach.write shared .shared d.name).write own _ d.name,
    hunopposed₂.accepting, ?_, ?_, fun hall => ?_⟩
  · rw [Settings.get, hlookup]
    exact congrArg Except.ok hshared
  · rw [Settings.get, hlookup]
    exact congrArg Except.ok hown
  · obtain ⟨e, q, hq, d', hd', hne⟩ := SetRun.exists_of_halfDone (p := ⟨s₂, []⟩) hunopposed₂ hhalf
    exact hne (hall e q hq d' hd').1

end ModalScript
