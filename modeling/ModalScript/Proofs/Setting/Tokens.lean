/-
Lists of tokens after an edit.

Three edits are three algorithms.  What is added at the end is compared with the list as it
grows, so that nothing is added twice.  What is put in front is compared with the list from before
only, and so a token that the operand repeats is repeated in the list, unless it has been there.
What is taken away is taken away wherever it stands.

Main results: what each edit makes of a list of distinct tokens (`Settings.edit_of_distinct`), and
an operand that makes the list repeat a token (`Settings.not_nodup_of_prepend`).
-/
import ModalScript.Proofs.Setting.ReadBack

namespace ModalScript

/-! ### Lists -/

namespace Edit

variable {ts operand : List String} {u : String}

theorem prefix_addToken : ts <+: addToken ts u := by
  unfold addToken
  split
  · exact List.prefix_refl _
  · exact List.prefix_append _ _

theorem nodup_addToken (h : ts.Nodup) : (addToken ts u).Nodup := by
  unfold addToken
  split
  · exact h
  · next hu =>
    exact h.append (List.nodup_singleton u) (List.disjoint_singleton.mpr hu)

theorem prefix_foldl_addToken : ts <+: operand.foldl addToken ts := by
  induction operand generalizing ts with
  | nil => exact List.prefix_refl _
  | cons u operand ih => exact prefix_addToken.trans ih

/-- Adding one token after the other repeats none. -/
theorem nodup_foldl_addToken (h : ts.Nodup) : (operand.foldl addToken ts).Nodup := by
  induction operand generalizing ts with
  | nil => exact h
  | cons u operand ih => exact ih (nodup_addToken h)

/-- What is put in front of a list has nothing in common with it, but may repeat itself. -/
theorem nodup_prepended_iff (h : ts.Nodup) :
    (operand.filter (· ∉ ts) ++ ts).Nodup ↔ (operand.filter (· ∉ ts)).Nodup := by
  refine ⟨List.Nodup.of_append_left, fun hnew => hnew.append h ?_⟩
  -- what is put in front is not in the old list
  intro t ht hold
  rw [List.mem_filter, decide_eq_true_iff] at ht
  exact ht.2 hold

/-- What an edit makes of a list of distinct tokens. -/
def Leaves (e : Edit) (ts operand ts' : List String) : Prop :=
  match e with
  | .append => ts'.Nodup ∧ (∀ t, t ∈ ts' ↔ t ∈ ts ∨ t ∈ operand) ∧ ts <+: ts'
  | .prepend =>
    (ts'.Nodup ↔ (operand.filter (· ∉ ts)).Nodup) ∧ (∀ t, t ∈ ts' ↔ t ∈ ts ∨ t ∈ operand) ∧
      ts <:+ ts'
  | .remove => ts'.Nodup ∧ (∀ t, t ∈ ts' ↔ t ∈ ts ∧ t ∉ operand) ∧ ts'.Sublist ts

/-- Each edit is the algorithm that its name says. -/
theorem leaves_onTokens (e : Edit) (h : ts.Nodup) (operand : List String) :
    e.Leaves ts operand (e.onTokens ts operand) := by
  cases e with
  | append => exact ⟨nodup_foldl_addToken h, fun t => mem_foldl_addToken, prefix_foldl_addToken⟩
  | prepend => exact ⟨nodup_prepended_iff h, fun t => mem_prepended, List.suffix_append _ _⟩
  | remove =>
    refine ⟨h.filter _, fun t => ?_, List.filter_sublist⟩
    rw [onTokens, List.mem_filter, decide_eq_true_iff]

end Edit

/-! ### Settings -/

namespace Settings

variable {s t : Settings} {d : SettingDeclaration} {scope : SettingScope} {v : SettingValue}
  {name operand : String} {w : SettingWrite} {ts us : List String}

/-- What a write asks for is read afterwards, if the write succeeds. -/
theorem get_of_write (hd : s.declaration? name = .ok d)
    (hv : w.wanted name d (s.current scope d) = .ok v) (hw : w.run scope name s = (.ok (), t)) :
    t.get scope name = .ok v := by
  rw [w.run_of_declared hd, hv] at hw
  simp only at hw
  split at hw
  · next hidle =>
    -- nothing has been stored, as the value was there before
    cases hw
    rw [get, hd, hidle.2]
    rfl
  · cases hcheck : d.check.run v with
    | error reason =>
      rw [commit_refused hcheck] at hw
      cases hw
    | ok =>
      rw [commit_accepted hcheck] at hw
      have hget : ((s.store d (d.effectiveScope scope) v).notify d
          (s.changeOf d scope v)).2.get scope name = .ok v := get_notify_store hd _
      rwa [hw] at hget

/-- **Edits of lists of distinct tokens.**  An edit that succeeds adds the tokens of its operand
at the end or in front, or takes them away, and leaves the others in their order.  No token is
repeated behind it, unless the operand of a `prepend` repeats one that is new. -/
theorem edit_of_distinct (hd : s.declaration? name = .ok d)
    (hts : s.get scope name = .ok (.tokens ts)) (hdistinct : ts.Nodup)
    (hus : d.tokenizer.tokenize operand = some us) (e : Edit)
    (hedit : edit scope name operand e s = (.ok (), t)) :
    ∃ ts', t.get scope name = .ok (.tokens ts') ∧ e.Leaves ts us ts' := by
  have hcurrent : s.current scope d = .tokens ts := by
    rw [get, hd] at hts
    exact Except.ok.inj hts
  have hwanted : (SettingWrite.edit e operand).wanted name d (s.current scope d) =
      .ok (.tokens (e.onTokens ts us)) := by
    rw [hcurrent]
    simp only [SettingWrite.wanted, Edit.apply, hus]
  exact ⟨_, get_of_write hd hwanted hedit, e.leaves_onTokens hdistinct us⟩

/-- Tokens that are added at the end, one of them twice and one that is there already. -/
theorem edit_of_distinct_of_repeated_operand :
    initial.get .shared "viminfo" = .ok (.tokens ["'100", "<50", "s10", "h"]) ∧
      ∃ t ts', edit .shared "viminfo" "x,h,x" .append initial = (.ok (), t) ∧
        t.get .shared "viminfo" = .ok (.tokens ts') ∧
        Edit.append.Leaves ["'100", "<50", "s10", "h"] ["x", "h", "x"] ts' := by
  obtain ⟨d, t, hd, hts, hdistinct, hus, hedit⟩ :
      ∃ d t, initial.declaration? "viminfo" = .ok d ∧
        initial.get .shared "viminfo" = .ok (.tokens ["'100", "<50", "s10", "h"]) ∧
        ["'100", "<50", "s10", "h"].Nodup ∧
        d.tokenizer.tokenize "x,h,x" = some ["x", "h", "x"] ∧
        edit .shared "viminfo" "x,h,x" .append initial = (.ok (), t) :=
    ⟨_, _, rfl, rfl, by decide, rfl, rfl⟩
  obtain ⟨ts', hget, hleaves⟩ := edit_of_distinct hd hts hdistinct hus .append hedit
  exact ⟨hts, t, ts', hedit, hget, hleaves⟩

/-- A list of distinct tokens, and an operand that is put in front of it and repeats a new
token: it does so in the list. -/
theorem not_nodup_of_prepend :
    initial.get .shared "viminfo" = .ok (.tokens ["'100", "<50", "s10", "h"]) ∧
      ["'100", "<50", "s10", "h"].Nodup ∧
      ∃ t ts', edit .shared "viminfo" "x,x" .prepend initial = (.ok (), t) ∧
        t.get .shared "viminfo" = .ok (.tokens ts') ∧ ¬ ts'.Nodup :=
  ⟨rfl, by decide, _, ["x", "x", "'100", "<50", "s10", "h"], rfl, rfl, by decide⟩

end Settings

end ModalScript
