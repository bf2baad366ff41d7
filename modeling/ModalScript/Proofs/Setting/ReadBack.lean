/-
Lists of tokens that are read and written back.

A list is read as a text with commas between the tokens, and a text is cut into tokens when it is
written.  Whether a list survives this is decided by its tokens (`Tokenizer.Separable`), and they
need not have come from a text: a list of a script is stored as it is, and edits put tokens in
front of each other that were not written so.

`Settings.Customised` lists what happens to the settings of a session: writes, and editors that
come and go.  Nobody but the keeper of the classifier hears of them, and he accepts what has
passed the check, so that a write is done just if the value passes (`Customised.commit_eq_ok`).

Main result: `Settings.writesBack_iff`.
-/
import ModalScript.Proofs.Session.Keywords
import ModalScript.Proofs.Setting.Separators

namespace ModalScript

/-! ### Tokens after an edit -/

namespace Edit

variable {t : String} {ts operand : List String}

theorem mem_addToken {u : String} : t ∈ addToken ts u ↔ t ∈ ts ∨ t = u := by
  unfold addToken
  split
  · next hu => exact (or_iff_left_of_imp fun ht => ht ▸ hu).symm
  · rw [List.mem_append, List.mem_singleton]

theorem mem_foldl_addToken : t ∈ operand.foldl addToken ts ↔ t ∈ ts ∨ t ∈ operand := by
  induction operand generalizing ts with
  | nil => exact (or_iff_left List.not_mem_nil).symm
  | cons u operand ih => rw [List.foldl_cons, ih, mem_addToken, List.mem_cons, or_assoc]

theorem mem_prepended : t ∈ operand.filter (· ∉ ts) ++ ts ↔ t ∈ ts ∨ t ∈ operand := by
  rw [List.mem_append, List.mem_filter, decide_eq_true_iff]
  by_cases ht : t ∈ ts
  · exact iff_of_true (.inr ht) (.inl ht)
  · exact ⟨fun h => .inr (h.resolve_right ht).1, fun h => .inl ⟨h.resolve_left ht, ht⟩⟩

/-- Each token after an edit has been there, or has been written. -/
theorem mem_onTokens {e : Edit} (h : t ∈ e.onTokens ts operand) : t ∈ ts ∨ t ∈ operand := by
  cases e with
  | append => exact mem_foldl_addToken.mp h
  | prepend => exact mem_prepended.mp h
  | remove => exact .inl (List.mem_filter.mp h).1

end Edit

namespace SettingWrite

/-- The writes that put no tokens side by side but such as a text has side by side, or such as
all commas separate. -/
def Separates (d : SettingDeclaration) : SettingWrite → Prop
  | .assign _ (.list _) | .value _ => False
  | .edit .append _ | .edit .prepend _ => d.tokenizer = .commas
  | _ => True

end SettingWrite

namespace Settings

variable {s s' : Settings} {d : SettingDeclaration} {scope : SettingScope} {v : SettingValue}
  {name : String}

/-! ### The settings of a session -/

/-- Settings that come about from those of a new session by writes, refused or not, while editors
come and go.  The writes of lists of tokens are of a certain kind, those of other settings of
any. -/
inductive Customised (W : SettingDeclaration → SettingWrite → Prop) : Settings → Prop
  | new {s : Session} : Session.ofSettings .initial = .ok s → Customised W s.settings
  | write {s : Settings} (w : SettingWrite) (scope : SettingScope) (name : String) :
      (∀ d, s.declaration? name = .ok d → d.type = .tokens → W d w) →
      Customised W s → Customised W (w.run scope name s).2
  | register {s : Settings} (id : EditorId) : Customised W s → Customised W (s.register id)
  | forget {s : Settings} (id : EditorId) : Customised W s → Customised W (s.forget id)

/-- The lists of tokens among the settings that every session has. -/
theorem list_of_mem_catalogue : ∀ d ∈ Catalogue.settings, d.type = .tokens →
    d.kind = .shared ∧
      (d.tokenizer = .commas ∨ d.tokenizer = .keywords ∧ d.check = .keywords) ∧
      ∃ ts, d.default = .tokens ts ∧ initial.sharedValue d = .tokens ts ∧
        d.tokenizer.Separable ts := by
  intro d hd htype
  -- one setting of the catalogue after the other
  repeat
    rcases List.mem_cons.mp hd with rfl | hd
    · first
        | exact absurd htype (by decide)
        | exact ⟨rfl, .inl rfl, _, rfl, rfl, by decide⟩
        | exact ⟨rfl, .inr ⟨rfl, rfl⟩, _, rfl, rfl, by decide⟩
  cases hd

namespace Customised

variable {W : SettingDeclaration → SettingWrite → Prop}

theorem reachable (h : s.Customised W) : s.Reachable := by
  induction h with
  | new hs =>
    obtain ⟨audience, hnew⟩ := Session.settings_of_new hs
    have hlisten : initial.listen keywordSetting .keywordTable =
      .ok { initial with listeners := [(keywordSetting, .keywordTable)] } := rfl
    rw [hnew]
    exact .remember audience (.listen .initial hlisten)
  | write w scope name _ _ ih => exact ih.write w scope name
  | register id _ ih => exact ih.register id
  | forget id _ ih => exact ih.forget id

theorem keywordsFollow (h : s.Customised W) : s.KeywordsFollow := by
  induction h with
  | new hs => exact Session.keywordsFollow_of_new hs
  | write w scope name _ _ ih => exact ih.write w scope name
  | register id _ ih => exact ih.register id
  | forget id _ ih => exact ih.forget id

theorem rewritten {t : Settings} {id : EditorId} (h : s.Customised fun _ _ => True)
    (ht : s.Rewritten id t) : t.Customised fun _ _ => True := by
  induction ht with
  | refl => exact h
  | tail _ hstep ih =>
    obtain ⟨w, scope, name, -, rfl⟩ := hstep
    exact .write w scope name (fun _ _ _ => trivial) ih

/-- Scripts, with all the commands in them, do nothing to the settings but write them. -/
theorem runScript {s : State} (h : s.session.settings.Customised fun _ _ => True) (n : Nat)
    (script : List Statement) :
    (ModalScript.runScript n script s).2.session.settings.Customised fun _ _ => True :=
  h.rewritten (confined_runScript n script s).rewritten.2

/-- Neither do init scripts. -/
theorem init (h : s.Customised fun _ _ => True) (script : InitScript) :
    (script.run s).2.Customised fun _ _ => True :=
  h.rewritten (script.rewritten_run ⟨0⟩ s)

/-- Nothing is declared, and nobody begins to listen. -/
theorem declared (h : s.Customised W) :
    s.declarations = Catalogue.settings ∧ s.listeners = [(keywordSetting, .keywordTable)] := by
  induction h with
  | new hs =>
    obtain ⟨audience, hnew⟩ := Session.settings_of_new hs
    rw [hnew]
    exact ⟨rfl, rfl⟩
  | @write s w scope name _ _ ih =>
    refine write_induction (P := fun s => s.declarations = Catalogue.settings ∧
      s.listeners = [(keywordSetting, .keywordTable)]) ih fun d v _ _ _ => ?_
    show (s.store d (d.effectiveScope scope) v).declarations = _ ∧
      (s.store d (d.effectiveScope scope) v).listeners = _
    rw [declarations_store, listeners_store]
    exact ih
  | register id _ ih =>
    rw [register_eq]
    exact ih
  | forget id _ ih => exact ih

/-- A value that passes the check is committed, and nobody refuses it. -/
theorem commit_eq_ok (h : s.Customised W) (hd : s.declaration? name = .ok d)
    (hcheck : d.check.run v = .ok ()) (scope : SettingScope) :
    ∃ s', commit d scope v s = (.ok (), s') ∧ s'.get scope name = .ok v := by
  -- there is one listener at most, the keeper of the classifier, who accepts what the check does
  have hannounce (change : SettingChange) (hchange : change.new = v) (a : Audience) :
      (announce change (s.listenersOf d) a).1 = .ok () := by
    by_cases hname : d.name = keywordSetting
    · have hlisteners : s.listenersOf d = [.keywordTable] := by
        rw [listenersOf, h.declared.2, hname]
        rfl
      have hkeywords := (h.keywordsFollow.declared d (mem_of_declaration? hd) hname).2
      rw [hkeywords] at hcheck
      obtain ⟨ts, k, -, -, hk⟩ := classifierOf_of_check hcheck
      rw [← hchange] at hk
      simp only [hlisteners, announce, Listener.hear_keywordTable hk]
    · have hlisteners : s.listenersOf d = [] := by
        rw [listenersOf, h.declared.2, List.filter_singleton, decide_eq_false (Ne.symm hname)]
        rfl
      rw [hlisteners]
      rfl
  refine ⟨_, Prod.ext ?_ rfl, ?_⟩
  · rw [commit_accepted hcheck]
    show (announce _ ((s.store d (d.effectiveScope scope) v).listenersOf d) _).1 = .ok ()
    rw [listenersOf_store]
    exact hannounce _ rfl _
  · rw [commit_accepted hcheck]
    exact get_notify_store hd _

end Customised

/-! ### Writing back -/

/-- Writing back what is read at a scope succeeds, and the same is read afterwards. -/
def WritesBack (s : Settings) (heap : Heap) (scope : SettingScope) (name : String) : Prop :=
  ∃ v s', s.getValue scope name = .ok v ∧ assign heap scope name v s = (.ok (), s') ∧
    s'.get scope name = s.get scope name

/-- The value of a list of tokens, which is one that is accepted. -/
theorem WellFormed.exists_tokens (h : s.WellFormed) (hd : s.declaration? name = .ok d)
    (htype : d.type = .tokens) (scope : SettingScope) :
    ∃ ts, s.current scope d = .tokens ts ∧ d.check.run (.tokens ts) = .ok () := by
  obtain ⟨hcurrent, hcheck⟩ := h.holds_current (mem_of_declaration? hd) scope
  rw [htype] at hcurrent
  cases hv : s.current scope d with
  | tokens ts =>
    rw [hv] at hcheck
    exact ⟨ts, rfl, hcheck⟩
  | flag | number | text =>
    rw [hv] at hcurrent
    cases hcurrent

/-- A text is written as its tokens. -/
theorem assign_string (hd : s.declaration? name = .ok d) (htype : d.type = .tokens) (heap : Heap)
    (text : String) :
    assign heap scope name (.string text) s =
      match d.tokenizer.tokenize text with
      | some ts => commit d scope (.tokens ts) s
      | none => (.error (.invalid d.name text), s) := by
  have hrun : (SettingWrite.assign heap (.string text)).run scope name s = _ :=
    (SettingWrite.assign heap (.string text)).run_of_declared hd
  have hcoerce : coerce heap d (.string text) = parseText d text := by
    unfold coerce
    rw [htype]
  simp only [SettingWrite.run, SettingWrite.wanted, hcoerce, parseText, htype] at hrun
  rw [hrun]
  cases d.tokenizer.tokenize text <;> simp [SettingWrite.isEdit]

/-- A list survives just if its text is cut into it again. -/
theorem writesBack_iff_tokenize {W : SettingDeclaration → SettingWrite → Prop}
    (h : s.Customised W) (heap : Heap) (hd : s.declaration? name = .ok d) (htype : d.type = .tokens)
    {ts : List String} (hts : s.current scope d = .tokens ts) :
    s.WritesBack heap scope name ↔
      d.tokenizer.tokenize (SettingValue.joinTokens ts) = some ts := by
  have hget : s.get scope name = .ok (.tokens ts) := by
    rw [get, hd]
    exact congrArg Except.ok hts
  have hvalue : s.getValue scope name = .ok (.string (SettingValue.joinTokens ts)) := by
    rw [getValue, hget]
    rfl
  constructor
  · rintro ⟨v, s', hv, hassign, hsame⟩
    obtain rfl := Except.ok.inj (hvalue.symm.trans hv)
    rw [assign_string hd htype] at hassign
    cases htokens : d.tokenizer.tokenize (SettingValue.joinTokens ts) with
    | none =>
      rw [htokens] at hassign
      cases hassign
    | some ts' =>
      rw [htokens] at hassign
      cases hcheck : d.check.run (.tokens ts') with
      | error reason =>
        simp only [commit_refused hcheck] at hassign
        cases hassign
      | ok =>
        -- other tokens would be stored, and read afterwards
        obtain ⟨t, hcommit, hget'⟩ := h.commit_eq_ok hd hcheck scope
        obtain rfl : t = s' := (Prod.mk.inj (hcommit.symm.trans hassign)).2
        rw [hsame, hget] at hget'
        rw [SettingValue.tokens.inj (Except.ok.inj hget')]
  · intro htokens
    -- the list is accepted as it is, so that it is accepted again
    obtain ⟨ts', hts', hcheck⟩ := h.reachable.wellFormed.exists_tokens hd htype scope
    obtain rfl := SettingValue.tokens.inj (hts'.symm.trans hts)
    obtain ⟨s', hcommit, hget'⟩ := h.commit_eq_ok hd hcheck scope
    refine ⟨_, s', hvalue, ?_, hget'.trans hget.symm⟩
    rw [assign_string hd htype, htokens]
    exact hcommit

/-! ### Separable lists -/

/-- The tokens of an accepted keyword list can be read. -/
theorem exists_classifier (hd : d ∈ Catalogue.settings) (htype : d.type = .tokens)
    {ts : List String} (hcheck : d.check.run (.tokens ts) = .ok ())
    (hkeywords : d.tokenizer = .keywords) : ∃ k, KeywordClassifier.ofTokens ts = .ok k := by
  obtain ⟨-, hcommas | ⟨-, hchecks⟩, -⟩ := list_of_mem_catalogue d hd htype
  · rw [hcommas] at hkeywords
    cases hkeywords
  · rw [hchecks] at hcheck
    obtain ⟨ts', k, hts, hk, -⟩ := classifierOf_of_check hcheck
    cases hts
    exact ⟨k, hk⟩

/-- What a text writes is separable, since it has been cut from the text. -/
theorem separable_of_text (hd : d ∈ Catalogue.settings) (htype : d.type = .tokens) {text : String}
    {ts : List String} (hcheck : d.check.run (.tokens ts) = .ok ())
    (h : parseText d text = .ok (.tokens ts)) : d.tokenizer.Separable ts := by
  have htokens : d.tokenizer.tokenize text = some ts := by
    unfold parseText at h
    simp only [htype] at h
    split at h
    · next htokens =>
      cases h
      exact htokens
    · cases h
  refine Tokenizer.separable_of_tokenize ?_ htokens (exists_classifier hd htype hcheck)
  rintro cut hcut
  obtain ⟨-, hcommas | ⟨hkeywords, -⟩, -⟩ := list_of_mem_catalogue d hd htype
  · rw [hcommas] at hcut
    cases hcut
  · rw [hkeywords] at hcut
    cases hcut

/-- An edit that puts no tokens side by side leaves a list separable. -/
theorem separable_of_edit (hd : d ∈ Catalogue.settings) (htype : d.type = .tokens) {e : Edit}
    {operand : String} (he : (SettingWrite.edit e operand).Separates d) {ts₀ ts : List String}
    (hts₀ : d.tokenizer.Separable ts₀) (h : e.apply d (.tokens ts₀) operand = .ok (.tokens ts)) :
    d.tokenizer.Separable ts := by
  obtain ⟨operand', hoperand, rfl⟩ : ∃ us, d.tokenizer.tokenize operand = some us ∧
      e.onTokens ts₀ us = ts := by
    simp only [Edit.apply] at h
    split at h
    · next us hus =>
      cases h
      exact ⟨us, hus, rfl⟩
    · cases h
  obtain ⟨-, hcommas | ⟨hkeywords, -⟩, -⟩ := list_of_mem_catalogue d hd htype
  · rw [hcommas] at hts₀ hoperand ⊢
    intro t ht
    rcases Edit.mem_onTokens ht with ht | ht
    · exact hts₀ t ht
    · exact Tokenizer.of_mem_splitCommas hoperand t ht
  · rw [hkeywords] at hts₀ ⊢
    cases e with
    | append | prepend =>
      have hcommas : d.tokenizer = .commas := he
      rw [hkeywords] at hcommas
      cases hcommas
    -- a token that is not the last one of those that are left was not the last one before
    | remove => exact fun t ht => hts₀ t ((sublist_dropLast List.filter_sublist).subset ht)

/-- The list that such a write asks for is separable, if the current one is. -/
theorem separable_of_wanted (hd : d ∈ Catalogue.settings) (htype : d.type = .tokens)
    {w : SettingWrite} (hw : w.Separates d) {ts₀ ts : List String}
    (hts₀ : d.tokenizer.Separable ts₀) (h : w.wanted name d (.tokens ts₀) = .ok (.tokens ts))
    (hcheck : d.check.run (.tokens ts) = .ok ()) : d.tokenizer.Separable ts := by
  cases w with
  | assign heap v =>
    simp only [SettingWrite.wanted, coerce, htype] at h
    cases v with
    | string text => exact separable_of_text hd htype hcheck h
    | list r => exact absurd hw id
    | _ => cases h
  | value v => exact absurd hw id
  | text text => exact separable_of_text hd htype hcheck h
  | turnOn | turnOff | toggle => cases h
  | edit e operand => exact separable_of_edit hd htype hw hts₀ h
  -- the defaults of the catalogue are separable
  | reset =>
    obtain ⟨-, -, ts', hdefault, -, hts'⟩ := list_of_mem_catalogue d hd htype
    obtain rfl := SettingValue.tokens.inj (hdefault.symm.trans (Except.ok.inj h))
    exact hts'

/-- The lists of tokens are separable. -/
def Separated (s : Settings) : Prop :=
  ∀ d ∈ Catalogue.settings, d.type = .tokens →
    ∃ ts, s.sharedValue d = .tokens ts ∧ d.tokenizer.Separable ts

/-- Lists of tokens are shared. -/
theorem current_eq_sharedValue (hd : d ∈ Catalogue.settings) (htype : d.type = .tokens)
    (s : Settings) (scope : SettingScope) : s.current scope d = s.sharedValue d := by
  rw [current, SettingDeclaration.effectiveScope_of_shared (list_of_mem_catalogue d hd htype).1]
  rfl

/-- Writes that put no tokens side by side leave all lists separable. -/
theorem Customised.separated {W : SettingDeclaration → SettingWrite → Prop}
    (hW : ∀ d w, W d w → w.Separates d) (h : s.Customised W) : s.Separated := by
  induction h with
  | @new s hs =>
    obtain ⟨audience, hnew⟩ := Session.settings_of_new hs
    intro d hd htype
    obtain ⟨-, -, ts, -, hshared, hts⟩ := list_of_mem_catalogue d hd htype
    rw [hnew]
    exact ⟨ts, hshared, hts⟩
  | @write s w scope name hw hs ih =>
    refine write_induction ih fun d v hd hv hcheck d' hd' htype => ?_
    have hmem : d ∈ Catalogue.settings := hs.declared.1 ▸ mem_of_declaration? hd
    show ∃ ts, (s.store d (d.effectiveScope scope) v).sharedValue d' = .tokens ts ∧ _
    by_cases hname : d'.name = d.name
    · -- the setting itself: the new list is the one that the write asks for
      obtain rfl : d' = d := by
        have hnodup := hs.reachable.wellFormed.shared.nodup_names
        rw [hs.declared.1] at hnodup
        exact List.inj_on_of_nodup_map hnodup hd' hmem hname
      obtain ⟨ts₀, hcurrent, hts₀⟩ := ih d' hmem htype
      rw [current_eq_sharedValue hmem htype, hcurrent] at hv
      obtain ⟨ts, rfl⟩ : ∃ ts, v = .tokens ts := by
        have hcurrent : (SettingValue.tokens ts₀).type = d'.type := htype.symm
        have hvtype := SettingWrite.type_of_wanted hcurrent hv
        rw [htype] at hvtype
        cases v with
        | tokens ts => exact ⟨ts, rfl⟩
        | flag | number | text => cases hvtype
      refine ⟨ts, ?_, separable_of_wanted hmem htype (hW d' w (hw d' hd htype)) hts₀ hv hcheck⟩
      rw [← current_eq_sharedValue hmem htype _ scope]
      exact valueAt_store s d' _ _
    · rw [sharedValue_store_of_ne hname]
      exact ih d' hd' htype
  | register id _ ih =>
    rw [register_eq]
    exact ih
  | forget id _ ih => exact ih

/-- **A list of tokens survives being read and written back just if its tokens are separable.**
The settings are those of a session after writes of any kind; the setting is any list of tokens,
read and written at any scope, by its name or abbreviation.

So it does if the lists have been written as texts and tokens have been taken out of them; where
all commas separate, tokens may have been added too. -/
theorem writesBack_iff {W : SettingDeclaration → SettingWrite → Prop} (h : s.Customised W)
    (heap : Heap) (scope : SettingScope) (hd : s.declaration? name = .ok d)
    (htype : d.type = .tokens) :
    ∃ ts, s.get scope name = .ok (.tokens ts) ∧
      (s.WritesBack heap scope name ↔ d.tokenizer.Separable ts) ∧
      ((∀ d w, W d w → w.Separates d) → s.WritesBack heap scope name) := by
  have hmem : d ∈ Catalogue.settings := h.declared.1 ▸ mem_of_declaration? hd
  obtain ⟨ts, hts, hcheck⟩ := h.reachable.wellFormed.exists_tokens hd htype scope
  have hget : s.get scope name = .ok (.tokens ts) := by
    rw [get, hd]
    exact congrArg Except.ok hts
  have hiff : s.WritesBack heap scope name ↔ d.tokenizer.Separable ts :=
    (writesBack_iff_tokenize h heap hd htype hts).trans
      (Tokenizer.tokenize_joinTokens_iff _ (exists_classifier hmem htype hcheck))
  refine ⟨ts, hget, hiff, fun hW => hiff.mpr ?_⟩
  obtain ⟨ts', hts', hseparable⟩ := h.separated hW d hmem htype
  -- lists are shared, so that this is the list that is read
  rw [← current_eq_sharedValue hmem htype s scope, hts] at hts'
  cases hts'
  exact hseparable

/-- A list that has been written as a text and added to. -/
theorem writesBack_of_added_token :
    ∃ s : Settings, s.Customised (fun d w => w.Separates d) ∧
      (∃ d, s.declaration? "vi" = .ok d ∧ d.type = .tokens) ∧
      s.get .shared "vi" = .ok (.tokens ["'20", "<5", "h"]) ∧
      s.WritesBack .empty .shared "vi" := by
  let written (s : Settings) : Settings := ((SettingWrite.text "'20,<5").run .shared "vi" s).2
  let added (s : Settings) : Settings :=
    ((SettingWrite.edit .append "h").run .shared "vi" (written s)).2
  obtain ⟨s, d, d', hs, hd, hcommas, hd', htype, hget⟩ :
      ∃ s d d', Session.ofSettings .initial = .ok s ∧
        (written s.settings).declaration? "vi" = .ok d ∧ d.tokenizer = .commas ∧
        (added s.settings).declaration? "vi" = .ok d' ∧ d'.type = .tokens ∧
        (added s.settings).get .shared "vi" = .ok (.tokens ["'20", "<5", "h"]) :=
    ⟨_, _, _, rfl, rfl, rfl, rfl, rfl, rfl⟩
  have hadded : (added s.settings).Customised fun d w => w.Separates d := by
    refine .write _ _ _ (fun d₁ hd₁ _ => ?_) (.write _ _ _ (fun _ _ _ => trivial) (.new hs))
    obtain rfl : d₁ = d := Except.ok.inj (hd₁.symm.trans hd)
    exact hcommas
  obtain ⟨ts, -, -, hback⟩ := writesBack_iff hadded .empty .shared hd' htype
  exact ⟨added s.settings, hadded, ⟨d', hd', htype⟩, hget, hback fun _ _ => id⟩

theorem not_writesBack_of_error {ts : List String} {heap : Heap} {e : SettingError}
    (hget : s.get scope name = .ok (.tokens ts))
    (herror : (assign heap scope name (.string (SettingValue.joinTokens ts)) s).1 = .error e) :
    ¬ s.WritesBack heap scope name := by
  rintro ⟨v, s', hv, hassign, -⟩
  rw [getValue, hget] at hv
  cases hv
  have hok : (assign heap scope name (.string (SettingValue.joinTokens ts)) s).1 = .ok () :=
    congrArg Prod.fst hassign
  rw [herror] at hok
  cases hok

/-- Lists that do not survive: one with nothing behind its last comma, which a script has stored
as a list, and a keyword list in which a token has been added behind a range that ends with a
dash. -/
theorem not_writesBack_of_list_and_dash :
    ∃ s : Settings, s.Customised (fun _ _ => True) ∧
      s.get .shared "viminfo" = .ok (.tokens ["a", ""]) ∧
      ¬ s.WritesBack .empty .shared "viminfo" ∧
      s.get .shared "iskeyword" = .ok (.tokens ["!--", "a"]) ∧
      ¬ s.WritesBack .empty .shared "iskeyword" := by
  let heap : Heap := ⟨#[[.string "a", .string ""]], #[]⟩
  let listed (s : Settings) : Settings :=
    ((SettingWrite.assign heap (.list ⟨0⟩)).run .shared "viminfo" s).2
  let written (s : Settings) : Settings :=
    ((SettingWrite.text "!--").run .shared "iskeyword" (listed s)).2
  let added (s : Settings) : Settings :=
    ((SettingWrite.edit .append "a").run .shared "iskeyword" (written s)).2
  obtain ⟨s, e, e', hs, hlist, he, hkeywords, he'⟩ :
      ∃ s e e', Session.ofSettings .initial = .ok s ∧
        (added s.settings).get .shared "viminfo" = .ok (.tokens ["a", ""]) ∧
        (assign .empty .shared "viminfo" (.string "a,") (added s.settings)).1 = .error e ∧
        (added s.settings).get .shared "iskeyword" = .ok (.tokens ["!--", "a"]) ∧
        (assign .empty .shared "iskeyword" (.string "!--,a") (added s.settings)).1 = .error e' :=
    ⟨_, _, _, rfl, rfl, rfl, rfl, rfl⟩
  -- three writes, of any kind
  have hadded : (added s.settings).Customised fun _ _ => True :=
    .write _ _ _ (fun _ _ _ => trivial) (.write _ _ _ (fun _ _ _ => trivial)
      (.write _ _ _ (fun _ _ _ => trivial) (.new hs)))
  exact ⟨added s.settings, hadded, hlist, not_writesBack_of_error hlist he, hkeywords,
    not_writesBack_of_error hkeywords he'⟩

end Settings

end ModalScript
