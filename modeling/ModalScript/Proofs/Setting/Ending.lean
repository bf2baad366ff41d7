/-
What one write of a setting may do.

A write ends in one of three ways (`SettingWrite.Ends`):

* `refused`: it fails before anything is committed, so that nobody is told and nothing
  changes, because of one of the causes of `FailsWith`;
* `idle`: it is an edit that leaves the value as it is, with the same effect;
* `committed`: one value is replaced (`Settings.Replaced`), and the listeners are told up to
  the first that refuses (`Announced`).

Main result: of reachable settings each write ends in exactly one of them
(`existsUnique_ending`).  That nobody is told is said without looking at what listeners
remember, which need not show that they have been called: the first two endings are the
same for any listeners whatsoever.
-/
import ModalScript.Proofs.Setting.WellFormed

namespace ModalScript

/-! ### Announcements -/

/-- What listeners remember after they have been told of a change, one after the other. -/
def hearAll (change : SettingChange) (ls : List Listener) (a : Audience) : Audience :=
  ls.foldl (fun a l => (l.hear change a).2) a

/-- Each listener accepts the change, when those before it have been told. -/
def AllAccept (change : SettingChange) (ls : List Listener) (a : Audience) : Prop :=
  ∀ before l after, ls = before ++ l :: after →
    (l.hear change (hearAll change before a)).1 = .ok ()

/-- How an announcement ends: all listeners have been told and accept, or one of them refuses
after all before it have been told and accept. -/
def Announced (change : SettingChange) (ls : List Listener) (a : Audience)
    (answer : Except SettingError Unit) (a' : Audience) : Prop :=
  match answer with
  | .ok () => AllAccept change ls a ∧ a' = hearAll change ls a
  | .error e => ∃ before l after, ls = before ++ l :: after ∧ AllAccept change before a ∧
      l.hear change (hearAll change before a) = (.error e, a')

section Announcements

variable {change : SettingChange} {l : Listener} {ls : List Listener} {a a' : Audience}

theorem allAccept_nil : AllAccept change [] a :=
  fun before l after h => absurd h (by simp)

/-- One more listener in front is told first. -/
theorem AllAccept.cons (hl : (l.hear change a).1 = .ok ())
    (h : AllAccept change ls (l.hear change a).2) : AllAccept change (l :: ls) a := by
  intro before l' after he
  cases before with
  | nil =>
    obtain ⟨rfl, rfl⟩ := List.cons.inj he
    exact hl
  | cons b before =>
    obtain ⟨rfl, rfl⟩ := List.cons.inj he
    exact h before l' after rfl

/-- Telling one listener after the other ends in one of the two ways. -/
theorem announced_announce (change : SettingChange) (ls : List Listener) (a : Audience) :
    Announced change ls a (announce change ls a).1 (announce change ls a).2 := by
  induction ls generalizing a with
  | nil => exact ⟨allAccept_nil, rfl⟩
  | cons l ls ih =>
    rcases hl : l.hear change a with ⟨r, a'⟩
    have hsnd : (l.hear change a).2 = a' := by rw [hl]
    cases r with
    | error e =>
      simp only [announce, hl]
      exact ⟨[], l, ls, rfl, allAccept_nil, hl⟩
    | ok =>
      have hfst : (l.hear change a).1 = .ok () := by rw [hl]
      -- the others are told in the state that this listener has left
      have hrest := ih a'
      simp only [announce, hl]
      cases hr : (announce change ls a').1 with
      | ok =>
        rw [hr] at hrest
        obtain ⟨hall, hheard⟩ := hrest
        refine ⟨.cons hfst (by rwa [hsnd]), ?_⟩
        rw [hheard, hearAll, hearAll, List.foldl_cons, hsnd]
      | error e =>
        rw [hr] at hrest
        obtain ⟨before, l', after, he, hall, hl'⟩ := hrest
        refine ⟨l :: before, l', after, by rw [he, List.cons_append],
          .cons hfst (by rwa [hsnd]), ?_⟩
        rw [hearAll, List.foldl_cons, hsnd]
        exact hl'

theorem Announced.ok_of_nil {answer : Except SettingError Unit}
    (h : Announced change [] a answer a') : answer = .ok () := by
  cases answer with
  | ok => rfl
  | error e =>
    obtain ⟨before, l, after, he, -⟩ := h
    exact absurd he (by simp)

/-- A witness that accepts everything notices that it is told. -/
theorem Announced.ne_of_witness {answer : Except SettingError Unit} {tag : String}
    (h : Announced change [.witness tag fun _ _ => .ok ()] a answer a') : a' ≠ a := by
  -- its notice is one more than there were
  have hnoticed : (Listener.witness tag fun _ _ => .ok ()).hear change a =
      (.ok (), { a with notices := a.notices ++ [(tag, change)] }) := rfl
  cases answer with
  | ok =>
    obtain ⟨-, rfl⟩ := h
    intro he
    rw [hearAll, List.foldl_cons, List.foldl_nil, hnoticed] at he
    simpa using congrArg (·.notices) he
  | error e =>
    obtain ⟨before, l, after, he, -, hl⟩ := h
    rcases List.cons_eq_append_iff.mp he with ⟨rfl, he'⟩ | ⟨_, rfl, he'⟩
    · obtain ⟨rfl, rfl⟩ := List.cons.inj he'
      rw [hearAll, List.foldl_nil, hnoticed] at hl
      cases hl
    · simp at he'

end Announcements

/-! ### Replacing a value -/

namespace Settings

/-- One value has been replaced, and otherwise the settings are as before, except that an
editor that was unknown has been given copies of the shared values. -/
def Replaced (s s' : Settings) (d : SettingDeclaration) (place : SettingScope)
    (v : SettingValue) : Prop :=
  s'.declarations = s.declarations ∧ s'.listeners = s.listeners ∧
  match place with
  | .shared =>
    s'.own = s.own ∧ s'.shared.get? d.name = some v ∧
      ∀ name, name ≠ d.name → s'.shared.get? name = s.shared.get? name
  | .editor id =>
    s'.shared = s.shared ∧ (∀ id', id' ≠ id → s'.own.get? id' = s.own.get? id') ∧
    ∃ vs', s'.own.get? id = some vs' ∧ vs'.get? d.name = some v ∧
      match s.own.get? id with
      | some vs => ∀ name, name ≠ d.name → vs'.get? name = vs.get? name
      | none =>
        vs'.keys.Perm ((s.declarations.filter (·.kind = .perEditor)).map (·.name)) ∧
        ∀ d' ∈ s.declarations, d'.kind = .perEditor → d'.name ≠ d.name →
          vs'.get? d'.name = s.shared.get? d'.name

/-- Storing a value at its place replaces that value and no other. -/
theorem WellFormed.replaced_store {s : Settings} (h : s.WellFormed) {d : SettingDeclaration}
    (hd : d ∈ s.declarations) {v : SettingValue} (hv : d.Accepts v) (scope : SettingScope) :
    s.Replaced (s.store d (d.effectiveScope scope) v) d (d.effectiveScope scope) v := by
  cases hscope : d.effectiveScope scope with
  | shared =>
    exact ⟨rfl, rfl, rfl, Dict.get?_insert_self _ _ _,
      fun name hne => Dict.get?_insert_ne _ v hne⟩
  | editor id =>
    have hkind := (SettingDeclaration.effectiveScope_editor hscope).1
    have hmem : d ∈ s.perEditor := mem_perEditor_iff.mpr ⟨hd, hkind⟩
    rw [store_editor]
    refine ⟨rfl, rfl, rfl, fun id' hne => ?_, (s.valuesOf id).insert d.name v, ?_,
      Dict.get?_insert_self _ _ _, ?_⟩
    · rw [get?_store_editor, if_neg hne]
    · rw [get?_store_editor, if_pos rfl]
    · cases hown : s.own.get? id with
      | some vs =>
        intro name hne
        rw [Dict.get?_insert_ne _ v hne, valuesOf, hown, Option.getD_some]
      | none =>
        -- the editor has been made known, and has copies of all other values
        refine ⟨((h.covers_valuesOf id).replace hmem hv).keys, fun d' hd' hkind' hne => ?_⟩
        rw [Dict.get?_insert_ne _ v hne, valuesOf, hown, Option.getD_none,
          h.get?_initialValues hd', if_pos hkind', h.get?_shared hd']

/-- The same values with other listeners, who remember other things. -/
def heardBy (s : Settings) (ls : List (String × Listener)) (a : Audience) : Settings :=
  { s with listeners := ls, audience := a }

/-- Who listens does not matter for the values. -/
theorem WellFormed.heardBy {s : Settings} (h : s.WellFormed) (ls : List (String × Listener))
    (a : Audience) : (s.heardBy ls a).WellFormed :=
  h.of_eq rfl rfl rfl

end Settings

/-! ### Endings -/

/-- How a write can end. -/
inductive WriteEnding where
  | refused
  | idle
  | committed

namespace SettingWrite

/-- There is a cause for the write to fail before anything is committed: the setting is unknown,
the write asks for no value, or the value that it asks for does not pass the check. -/
inductive FailsWith (w : SettingWrite) (scope : SettingScope) (name : String) (s : Settings) :
    SettingError → Prop
  | unknown {e : SettingError} : s.declaration? name = .error e → FailsWith w scope name s e
  | unwanted {d : SettingDeclaration} {e : SettingError} : s.declaration? name = .ok d →
      w.wanted name d (s.current scope d) = .error e → FailsWith w scope name s e
  | rejected {d : SettingDeclaration} {v : SettingValue} {reason : String} :
      s.declaration? name = .ok d → w.wanted name d (s.current scope d) = .ok v →
      d.check.run v = .error reason →
      FailsWith w scope name s (.rejected d.name v.display reason)

/-- The write ends in this way, whoever listens. -/
def Ends (w : SettingWrite) (scope : SettingScope) (name : String) (s : Settings) :
    WriteEnding → Prop
  | .refused =>
    ∃ e, w.FailsWith scope name s e ∧
      ∀ ls a, w.run scope name (s.heardBy ls a) = (.error e, s.heardBy ls a)
  | .idle =>
    w.isEdit ∧
    (∃ d, s.declaration? name = .ok d ∧
      w.wanted name d (s.current scope d) = .ok (s.current scope d)) ∧
    ∀ ls a, w.run scope name (s.heardBy ls a) = (.ok (), s.heardBy ls a)
  | .committed =>
    ∃ d v, s.declaration? name = .ok d ∧ w.wanted name d (s.current scope d) = .ok v ∧
    ∀ ls a answer s', w.run scope name (s.heardBy ls a) = (answer, s') →
      (s.heardBy ls a).Replaced s' d (d.effectiveScope scope) v ∧
      Announced (s.changeOf d scope v) ((s.heardBy ls a).listenersOf d) a answer s'.audience

variable {w : SettingWrite} {scope : SettingScope} {name : String} {s : Settings}

/-- What a write does before it is announced depends on no listener. -/
theorem run_heardBy {d : SettingDeclaration} (hd : s.declaration? name = .ok d)
    (ls : List (String × Listener)) (a : Audience) :
    w.run scope name (s.heardBy ls a) =
      match w.wanted name d (s.current scope d) with
      | .error e => (.error e, s.heardBy ls a)
      | .ok v =>
        if w.isEdit ∧ v = s.current scope d then (.ok (), s.heardBy ls a)
        else Settings.commit d scope v (s.heardBy ls a) :=
  w.run_of_declared (s := s.heardBy ls a) hd

/-- A value that a write asks for is committed if it passes the check. -/
theorem ends_committed (h : s.WellFormed) {d : SettingDeclaration} {v : SettingValue}
    (hd : s.declaration? name = .ok d) (hv : w.wanted name d (s.current scope d) = .ok v)
    (hcheck : d.check.run v = .ok ()) (hidle : ¬(w.isEdit ∧ v = s.current scope d)) :
    w.Ends scope name s .committed := by
  have hmem := Settings.mem_of_declaration? hd
  have hacc : d.Accepts v := ⟨type_of_wanted (h.holds_current hmem scope).1 hv, hcheck⟩
  refine ⟨d, v, hd, hv, fun ls a answer s' hrun => ?_⟩
  rw [run_heardBy hd, hv] at hrun
  simp only at hrun
  rw [if_neg hidle, Settings.commit_accepted hcheck] at hrun
  -- neither the listeners nor what they remember is touched before they are told
  simp only [Settings.notify, Settings.listenersOf_store, Settings.audience_store] at hrun
  obtain ⟨rfl, rfl⟩ := Prod.mk.inj hrun
  exact ⟨(h.heardBy ls a).replaced_store hmem hacc scope, announced_announce _ _ _⟩

/-- Every write ends in one of the ways. -/
theorem exists_ending (h : s.WellFormed) (w : SettingWrite) (scope : SettingScope)
    (name : String) : ∃ k, w.Ends scope name s k := by
  cases hd : s.declaration? name with
  | error e =>
    exact ⟨.refused, e, .unknown hd, fun ls a => w.run_of_unknown (s := s.heardBy ls a) hd⟩
  | ok d =>
    cases hv : w.wanted name d (s.current scope d) with
    | error e =>
      refine ⟨.refused, e, .unwanted hd hv, fun ls a => ?_⟩
      rw [run_heardBy hd, hv]
    | ok v =>
      -- an edit that changes nothing is left out before the check
      by_cases hidle : w.isEdit ∧ v = s.current scope d
      · refine ⟨.idle, hidle.1, ⟨d, hd, by rw [hv, hidle.2]⟩, fun ls a => ?_⟩
        rw [run_heardBy hd, hv]
        simp only
        rw [if_pos hidle]
      · cases hcheck : d.check.run v with
        | error reason =>
          refine ⟨.refused, _, .rejected hd hv hcheck, fun ls a => ?_⟩
          rw [run_heardBy hd, hv]
          simp only
          rw [if_neg hidle, Settings.commit_refused hcheck]
        | ok => exact ⟨.committed, ends_committed h hd hv hcheck hidle⟩

/-! ### The endings exclude each other -/

theorem Ends.not_refused_of_idle (h : w.Ends scope name s .idle) :
    ¬w.Ends scope name s .refused := by
  rintro ⟨e, -, he⟩
  have hok := h.2.2 [] s.audience
  rw [he] at hok
  cases hok

/-- What is committed answers no error where nobody listens. -/
theorem Ends.not_refused_of_committed (h : w.Ends scope name s .committed) :
    ¬w.Ends scope name s .refused := by
  rintro ⟨e, -, he⟩
  obtain ⟨d, v, -, -, hrun⟩ := h
  -- where nobody listens, nobody can have refused
  obtain ⟨-, htold⟩ := hrun [] s.audience _ _ (he _ _)
  cases htold.ok_of_nil

/-- A witness of the setting tells a commit from an edit that changes nothing. -/
theorem Ends.not_idle_of_committed (h : w.Ends scope name s .committed) :
    ¬w.Ends scope name s .idle := by
  rintro ⟨-, -, hidle⟩
  obtain ⟨d, v, -, -, hrun⟩ := h
  have hls : (s.heardBy [(d.name, .witness "" fun _ _ => .ok ())] s.audience).listenersOf d =
      [.witness "" fun _ _ => .ok ()] := by
    simp [Settings.listenersOf, Settings.heardBy]
  obtain ⟨-, htold⟩ := hrun [(d.name, .witness "" fun _ _ => .ok ())] s.audience _ _ (hidle _ _)
  rw [hls] at htold
  exact htold.ne_of_witness rfl

theorem Ends.unique {k k' : WriteEnding} (h : w.Ends scope name s k)
    (h' : w.Ends scope name s k') : k' = k := by
  cases k <;> cases k' <;> first
    | rfl
    | exact absurd h h'.not_refused_of_idle
    | exact absurd h' h.not_refused_of_idle
    | exact absurd h h'.not_refused_of_committed
    | exact absurd h' h.not_refused_of_committed
    | exact absurd h h'.not_idle_of_committed
    | exact absurd h' h.not_idle_of_committed

/-- **What one write may do.**  A write of reachable settings ends in exactly one way: it is
refused, it is an edit without effect, or it replaces one value and is announced. -/
theorem existsUnique_ending (h : s.Reachable) (w : SettingWrite) (scope : SettingScope)
    (name : String) : ∃! k, w.Ends scope name s k := by
  obtain ⟨k, hk⟩ := exists_ending h.wellFormed w scope name
  exact ⟨k, hk, fun k' hk' => hk.unique hk'⟩

/-- An edit of a value of an editor that is not known: it is committed, and ends in no other way. -/
theorem existsUnique_ending_of_unknown_editor :
    let w : SettingWrite := .edit .append "4"
    Settings.initial.Reachable ∧ w.Ends (.editor ⟨2⟩) "sw" .initial .committed ∧
      ∃! k, w.Ends (.editor ⟨2⟩) "sw" .initial k := by
  intro w
  have hreach : Settings.initial.Reachable := .initial
  -- the default 8 and 4 make 12, which passes the check and is another value
  obtain ⟨d, hd, hwanted, hcheck, hnew⟩ : ∃ d, Settings.initial.declaration? "sw" = .ok d ∧
      w.wanted "sw" d (Settings.initial.current (.editor ⟨2⟩) d) = .ok (.number 12) ∧
      d.check.run (.number 12) = .ok () ∧
      SettingValue.number 12 ≠ Settings.initial.current (.editor ⟨2⟩) d :=
    ⟨_, rfl, rfl, rfl, by decide⟩
  exact ⟨hreach, ends_committed hreach.wellFormed hd hwanted hcheck fun hidle => hnew hidle.2,
    existsUnique_ending hreach _ _ _⟩

end SettingWrite

end ModalScript
