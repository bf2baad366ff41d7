/-
The keyword classifier follows the keyword setting.

The classifier is a cache: it is rebuilt by one listener, which hears of the commits of one
setting.  `Settings.KeywordsFollow` collects what makes this enough.  The setting is shared,
so that a commit changes the very value the classifier is made of; its check accepts only
lists that can be read, so that the listener cannot fail; and the listener is the first of
that setting, so that no other listener can keep the announcement from it.

Every operation on the settings keeps this, refused or not, whatever witnesses answer
(`KeywordsFollow.commit` is the step, `KeywordsFollow.rewritten` the run).
-/
import ModalScript.Proofs.Setting.Command
import ModalScript.Proofs.Setting.Ending

namespace ModalScript

/-! ### What an announcement does to the classifier -/

section Announcements

variable {change : SettingChange} {k : KeywordClassifier} {ls : List Listener} {a : Audience}

/-- A listener leaves the classifier alone, unless it is the one that keeps it. -/
theorem Listener.keywords_hear_of_ne {l : Listener} (h : l ≠ .keywordTable) :
    (l.hear change a).2.keywords = a.keywords := by
  cases l with
  | witness tag answer => rfl
  | keywordTable => exact absurd rfl h

/-- The keeper of the classifier takes the new one and accepts. -/
theorem Listener.hear_keywordTable (hk : classifierOf change.new = .ok k) (a : Audience) :
    Listener.keywordTable.hear change a = (.ok (), { a with keywords := k }) := by
  simp only [Listener.hear, hk]

/-- Where nobody keeps the classifier, it stays as it is. -/
theorem keywords_announce_of_notMem (h : Listener.keywordTable ∉ ls) (a : Audience) :
    (announce change ls a).2.keywords = a.keywords := by
  induction ls generalizing a with
  | nil => rfl
  | cons l ls ih =>
    have hl : (l.hear change a).2.keywords = a.keywords :=
      Listener.keywords_hear_of_ne fun he => h (he ▸ List.mem_cons_self)
    rcases hr : l.hear change a with ⟨r, a'⟩
    rw [hr] at hl
    simp only [announce, hr]
    cases r with
    -- whoever refuses keeps the change from those behind him
    | error e => exact hl
    | ok => exact (ih (fun hmem => h (List.mem_cons_of_mem _ hmem)) a').trans hl

/-- A classifier that has been rebuilt already is not changed by those who hear later. -/
theorem keywords_announce_of_eq (hk : classifierOf change.new = .ok k) (ha : a.keywords = k) :
    (announce change ls a).2.keywords = k := by
  induction ls generalizing a with
  | nil => exact ha
  | cons l ls ih =>
    have hl : (l.hear change a).2.keywords = k := by
      cases l with
      | witness tag answer => exact ha
      | keywordTable => rw [Listener.hear_keywordTable hk]
    rcases hr : l.hear change a with ⟨r, a'⟩
    rw [hr] at hl
    simp only [announce, hr]
    cases r with
    | error e => exact hl
    | ok => exact ih hl

/-- Where the keeper of the classifier hears first, the classifier is rebuilt, whoever
refuses the change afterwards. -/
theorem keywords_announce_cons (hk : classifierOf change.new = .ok k) (ls : List Listener)
    (a : Audience) : (announce change (.keywordTable :: ls) a).2.keywords = k := by
  simp only [announce, Listener.hear_keywordTable hk]
  exact keywords_announce_of_eq hk rfl

end Announcements

/-- A value that passes the check of keyword lists has a classifier. -/
theorem classifierOf_of_check {v : SettingValue} (h : SettingCheck.keywords.run v = .ok ()) :
    ∃ ts k, v = .tokens ts ∧ KeywordClassifier.ofTokens ts = .ok k ∧ classifierOf v = .ok k := by
  cases v with
  | flag | number | text => cases h
  | tokens ts =>
    cases hk : KeywordClassifier.ofTokens ts with
    | error e =>
      simp only [SettingCheck.run, hk] at h
      cases h
    | ok k => exact ⟨ts, k, rfl, hk, by simp only [classifierOf, hk]⟩

/-- A shared setting is kept at the shared scope, wherever it is written. -/
theorem SettingDeclaration.effectiveScope_of_shared {d : SettingDeclaration}
    (h : d.kind = .shared) (scope : SettingScope) : d.effectiveScope scope = .shared := by
  cases scope with
  | shared => rfl
  | editor id => simp only [effectiveScope, h]

/-! ### The invariant -/

namespace Settings

/-- The classifier is that of the keyword setting, and will be. -/
structure KeywordsFollow (s : Settings) : Prop where
  resolves : ∃ d, s.declaration? keywordSetting = .ok d ∧ d.name = keywordSetting
  /-- The setting is shared, and only lists that can be read pass its check. -/
  declared : ∀ d ∈ s.declarations, d.name = keywordSetting →
    d.kind = .shared ∧ d.check = .keywords
  /-- The keeper of the classifier is the first to hear of the setting. -/
  first : ∃ ls, (s.listeners.filter (·.1 = keywordSetting)).map (·.2) = .keywordTable :: ls
  /-- It hears of no other setting. -/
  only : ∀ p ∈ s.listeners, p.2 = .keywordTable → p.1 = keywordSetting
  current : ∃ ts, s.shared.get? keywordSetting = some (.tokens ts) ∧
    KeywordClassifier.ofTokens ts = .ok s.audience.keywords

namespace KeywordsFollow

variable {s t : Settings}

/-- All that counts are the declarations, the listeners, the shared value and the classifier. -/
theorem of_eq (h : s.KeywordsFollow) (hdeclarations : t.declarations = s.declarations)
    (hlisteners : t.listeners = s.listeners)
    (hshared : t.shared.get? keywordSetting = s.shared.get? keywordSetting)
    (hkeywords : t.audience.keywords = s.audience.keywords) : t.KeywordsFollow := by
  have hlookup : t.declaration? keywordSetting = s.declaration? keywordSetting := by
    simp only [declaration?, hdeclarations]
  refine ⟨?_, ?_, ?_, ?_, ?_⟩
  · rw [hlookup]
    exact h.resolves
  · rw [hdeclarations]
    exact h.declared
  · rw [hlisteners]
    exact h.first
  · rw [hlisteners]
    exact h.only
  · rw [hshared, hkeywords]
    exact h.current

theorem register (h : s.KeywordsFollow) (id : EditorId) : (s.register id).KeywordsFollow := by
  rw [register_eq]
  exact h.of_eq rfl rfl rfl rfl

theorem forget (h : s.KeywordsFollow) (id : EditorId) : (s.forget id).KeywordsFollow :=
  h.of_eq rfl rfl rfl rfl

theorem withNotices (h : s.KeywordsFollow) (notices : List (String × SettingChange)) :
    KeywordsFollow { s with audience := { s.audience with notices } } :=
  h.of_eq rfl rfl rfl rfl

/-- A witness that is added hears after the keeper of the classifier. -/
theorem listen (h : s.KeywordsFollow) {name tag : String}
    {answer : List (String × SettingChange) → SettingChange → Except SettingError Unit}
    (ht : s.listen name (.witness tag answer) = .ok t) : t.KeywordsFollow := by
  obtain ⟨d, -, rfl⟩ := listen_eq_ok ht
  refine ⟨h.resolves, h.declared, ?_, fun p hp hl => ?_, h.current⟩
  · obtain ⟨ls, hls⟩ := h.first
    exact ⟨ls ++ _, by rw [List.filter_append, List.map_append, hls, List.cons_append]⟩
  · rcases List.mem_append.mp hp with hp | hp
    · exact h.only p hp hl
    · -- what is added is a witness
      obtain rfl := List.mem_singleton.mp hp
      cases hl

/-- A new setting cannot take the name of the keyword setting. -/
theorem declare (h : s.KeywordsFollow) {d : SettingDeclaration} (ht : s.declare d = .ok t) :
    t.KeywordsFollow := by
  obtain ⟨hfree, rfl⟩ := declare_eq_ok ht
  obtain ⟨d₀, hd₀, hname₀⟩ := h.resolves
  have hne : keywordSetting ≠ d.name := by
    intro hname
    -- the old declaration would answer to the name of the new one
    have hanswers : d₀.answersTo d.name := by
      rw [← hname, ← hname₀]
      exact d₀.answersTo_name
    rw [hfree d.name d.answersTo_name d₀ (mem_of_declaration? hd₀)] at hanswers
    cases hanswers
  refine ⟨⟨d₀, ?_, hname₀⟩, fun d' hd' hname' => ?_, h.first, h.only, ?_⟩
  · -- the old declarations are found first
    have hfind := declaration?_eq_ok_iff.mp hd₀
    exact declaration?_eq_ok_iff.mpr (by rw [List.find?_append, hfind, Option.some_or])
  · rcases List.mem_append.mp hd' with hold | hnew
    · exact h.declared d' hold hname'
    · obtain rfl := List.mem_singleton.mp hnew
      exact absurd hname'.symm hne
  · show ∃ ts, (s.shared.insert d.name d.default).get? keywordSetting = _ ∧ _
    rw [Dict.get?_insert_ne _ _ hne]
    exact h.current

/-! ### Commits -/

theorem listenersOf_eq (h : s.KeywordsFollow) {d : SettingDeclaration}
    (hname : d.name = keywordSetting) : ∃ ls, s.listenersOf d = .keywordTable :: ls := by
  unfold Settings.listenersOf
  rw [hname]
  exact h.first

theorem keywordTable_notMem_listenersOf (h : s.KeywordsFollow) {d : SettingDeclaration}
    (hname : d.name ≠ keywordSetting) : Listener.keywordTable ∉ s.listenersOf d := by
  intro hmem
  obtain ⟨p, hp, hl⟩ := List.mem_map.mp hmem
  obtain ⟨hp, hpname⟩ := List.mem_filter.mp hp
  have hkeyword : p.1 = keywordSetting := h.only p hp hl
  rw [hkeyword] at hpname
  exact hname (of_decide_eq_true hpname).symm

/-- The commit of another setting leaves the value and the classifier alone. -/
theorem commit_of_ne (h : s.KeywordsFollow) {d : SettingDeclaration}
    (hname : d.name ≠ keywordSetting) (place : SettingScope) (v : SettingValue)
    (change : SettingChange) : ((s.store d place v).notify d change).2.KeywordsFollow := by
  have hkeywords : ((s.store d place v).notify d change).2.audience.keywords =
      s.audience.keywords := by
    show (announce change ((s.store d place v).listenersOf d)
      (s.store d place v).audience).2.keywords = _
    rw [listenersOf_store, audience_store]
    exact keywords_announce_of_notMem (h.keywordTable_notMem_listenersOf hname) s.audience
  cases place with
  | shared =>
    refine h.of_eq rfl rfl ?_ hkeywords
    exact Dict.get?_insert_ne _ v (Ne.symm hname)
  | editor id =>
    rw [store_editor] at hkeywords ⊢
    exact h.of_eq rfl rfl rfl hkeywords

/-- The commit of the keyword setting replaces the value and the classifier together. -/
theorem commit_of_eq (h : s.KeywordsFollow) {d : SettingDeclaration}
    (hname : d.name = keywordSetting) {v : SettingValue}
    (hcheck : SettingCheck.keywords.run v = .ok ()) {change : SettingChange}
    (hchange : change.new = v) : ((s.store d .shared v).notify d change).2.KeywordsFollow := by
  obtain ⟨ts, k, rfl, htokens, hk⟩ := classifierOf_of_check hcheck
  rw [← hchange] at hk
  have hkeywords : ((s.store d .shared (.tokens ts)).notify d change).2.audience.keywords = k := by
    show (announce change ((s.store d .shared (.tokens ts)).listenersOf d)
      (s.store d .shared (.tokens ts)).audience).2.keywords = k
    obtain ⟨ls, hls⟩ := h.listenersOf_eq hname
    rw [listenersOf_store, hls]
    exact keywords_announce_cons hk ls _
  refine ⟨h.resolves, h.declared, h.first, h.only, ts, ?_, ?_⟩
  · show (s.shared.insert d.name (.tokens ts)).get? keywordSetting = _
    rw [hname, Dict.get?_insert_self]
  · rw [hkeywords]
    exact htokens

/-- The commit of any setting, if the value passes its check. -/
theorem commit (h : s.KeywordsFollow) {d : SettingDeclaration} (hd : d ∈ s.declarations)
    (scope : SettingScope) {v : SettingValue} (hcheck : d.check.run v = .ok ()) :
    ((s.store d (d.effectiveScope scope) v).notify d (s.changeOf d scope v)).2.KeywordsFollow := by
  by_cases hname : d.name = keywordSetting
  · obtain ⟨hkind, hkeywords⟩ := h.declared d hd hname
    rw [SettingDeclaration.effectiveScope_of_shared hkind]
    rw [hkeywords] at hcheck
    exact h.commit_of_eq hname hcheck rfl
  · exact h.commit_of_ne hname _ v _

/-! ### Writes -/

/-- A write that passes the check is such a commit, and any other leaves all as it is. -/
theorem write (h : s.KeywordsFollow) (w : SettingWrite) (scope : SettingScope) (name : String) :
    (w.run scope name s).2.KeywordsFollow :=
  write_induction h fun _ _ hd _ hcheck => h.commit (mem_of_declaration? hd) scope hcheck

/-- Any sequence of writes keeps the classifier with the setting. -/
theorem rewritten (h : s.KeywordsFollow) {id : EditorId} (ht : s.Rewritten id t) :
    t.KeywordsFollow := by
  induction ht with
  | refl => exact h
  | tail _ hstep ih =>
    obtain ⟨w, scope, name, -, rfl⟩ := hstep
    exact ih.write w scope name

/-! ### The classifier -/

/-- Read at any scope, the keyword setting is a list of tokens, and the classifier is made of
it. -/
theorem classifier_eq (h : s.KeywordsFollow) :
    ∃ ts, (∀ scope, s.get scope keywordSetting = .ok (.tokens ts)) ∧
      KeywordClassifier.ofTokens ts = .ok s.audience.keywords := by
  obtain ⟨d, hd, hname⟩ := h.resolves
  obtain ⟨ts, hts, htokens⟩ := h.current
  refine ⟨ts, fun scope => ?_, htokens⟩
  have hkind := (h.declared d (mem_of_declaration? hd) hname).1
  have hcurrent : s.current scope d = .tokens ts := by
    rw [Settings.current, SettingDeclaration.effectiveScope_of_shared hkind]
    show (s.shared.get? d.name).getD d.default = .tokens ts
    rw [hname, hts, Option.getD_some]
  rw [Settings.get, hd]
  exact congrArg Except.ok hcurrent

end KeywordsFollow

end Settings

end ModalScript
