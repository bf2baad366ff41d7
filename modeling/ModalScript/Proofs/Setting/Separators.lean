/-
Which lists of tokens can be written as text.

A list of tokens is written with commas between the tokens, and it depends on the tokens whether
the text is cut at these commas again.  Where all commas separate, no token may be empty or have
a comma in it.  In keyword lists a comma stands for itself right behind a dash and before the
first character that counts, so that it matters how each token but the last one ends.

`Tokenizer.Separable` says it for both, and the main results are that these are just the lists
that are cut as they were (`tokenize_joinTokens_iff`), and that cutting a text gives such a list
(`separable_of_tokenize`).
-/
import ModalScript.Proofs.Fallible
import ModalScript.Proofs.Text.Cut
import ModalScript.Setting.Declaration

namespace ModalScript

/-! ### Commas that always separate -/

namespace Tokenizer

/-- Tokens that have been cut apart at commas have something in them, but no comma. -/
theorem of_mem_splitCommas {s : String} {ts : List String} (h : splitCommas s = some ts) :
    ∀ t ∈ ts, t ≠ "" ∧ ',' ∉ t.toList := by
  unfold splitCommas at h
  -- a text in which nothing stands between two commas is refused
  split at h
  · cases h
    exact List.forall_mem_nil _
  · simp only [] at h
    split at h
    · cases h
    · next hempty =>
      cases h
      intro t ht
      obtain ⟨cs, hcs, rfl⟩ := List.mem_map.mp ht
      refine ⟨mt String.ofList_eq_empty_iff.mp fun he => hempty (he ▸ hcs), ?_⟩
      rw [String.toList_ofList]
      exact notMem_of_mem_splitOn hcs

/-- Such tokens are cut apart at the commas between them. -/
theorem splitCommas_joinTokens {ts : List String} (h : ∀ t ∈ ts, t ≠ "" ∧ ',' ∉ t.toList) :
    splitCommas (SettingValue.joinTokens ts) = some ts := by
  cases ts with
  | nil => rfl
  | cons t ts =>
    have hparts : ([','].intercalate ((t :: ts).map String.toList)).splitOn ',' =
        (t :: ts).map String.toList := by
      refine List.splitOn_intercalate ',' (fun cs hcs => ?_) (List.cons_ne_nil _ _)
      obtain ⟨u, hu, rfl⟩ := List.mem_map.mp hcs
      exact (h u hu).2
    -- no token is empty, so that the text is taken
    have hnil : [] ∉ (t :: ts).map String.toList := by
      intro hmem
      obtain ⟨u, hu, he⟩ := List.mem_map.mp hmem
      exact (h u hu).1 (String.toList_eq_nil_iff.mp he)
    have hne : SettingValue.joinTokens (t :: ts) ≠ "" := by
      refine mt String.ofList_eq_empty_iff.mp fun he => hnil ?_
      rw [← hparts, he]
      exact List.mem_singleton_self []
    unfold splitCommas
    rw [if_neg hne]
    simp only [SettingValue.joinTokens, String.toList_ofList, hparts, if_neg hnil,
      map_ofList_toList]

end Tokenizer

/-! ### Commas of keyword lists -/

namespace TokenPlace

/-- The place behind further characters of a token. -/
def behind : TokenPlace → List Char → List Char → TokenPlace
  | place, _, [] => place
  | place, token, c :: cs => behind (place.next token c) (c :: token) cs

/-- No comma among further characters of a token separates. -/
def Passes : TokenPlace → List Char → List Char → Prop
  | _, _, [] => True
  | place, token, c :: cs =>
    ¬ (c = ',' ∧ place = .inside) ∧ Passes (place.next token c) (c :: token) cs

variable {place : TokenPlace} {token cs ds : List Char}

theorem behind_append :
    place.behind token (cs ++ ds) = (place.behind token cs).behind (cs.reverse ++ token) ds := by
  induction cs generalizing place token with
  | nil => rfl
  | cons c cs ih =>
    rw [List.cons_append, behind, behind, ih, List.reverse_cons, List.append_assoc]
    rfl

theorem passes_append :
    place.Passes token (cs ++ ds) ↔
      place.Passes token cs ∧ (place.behind token cs).Passes (cs.reverse ++ token) ds := by
  induction cs generalizing place token with
  | nil => exact (and_iff_right trivial).symm
  | cons c cs ih =>
    rw [List.cons_append, Passes, Passes, behind, ih, List.reverse_cons, List.append_assoc,
      and_assoc]
    rfl

end TokenPlace

section Cutting

variable {place : TokenPlace} {token cs rest : List Char}

/-- A token is read to its end, if no comma in it separates. -/
theorem splitTokensFrom_append (h : place.Passes token cs) :
    splitTokensFrom place token (cs ++ rest) =
      splitTokensFrom (place.behind token cs) (cs.reverse ++ token) rest := by
  induction cs generalizing place token with
  | nil => rfl
  | cons c cs ih =>
    rw [List.cons_append, splitTokensFrom, if_neg h.1, ih h.2, List.reverse_cons,
      List.append_assoc]
    rfl

/-- What has been read of a token stays at the start of the first token. -/
theorem exists_splitTokensFrom (h : token ≠ []) :
    ∃ t ts, splitTokensFrom place token cs = t :: ts ∧ token.reverse <+: t := by
  induction cs generalizing place token with
  | nil =>
    refine ⟨token.reverse, [], ?_, List.prefix_refl _⟩
    rw [splitTokensFrom, List.isEmpty_eq_false_iff.mpr h]
    rfl
  | cons c cs ih =>
    rw [splitTokensFrom]
    split
    · exact ⟨_, _, rfl, List.prefix_refl _⟩
    · obtain ⟨t, ts, hts, hprefix⟩ := @ih (place.next token c) (c :: token) (List.cons_ne_nil _ _)
      refine ⟨t, ts, hts, (List.prefix_append _ [c]).trans ?_⟩
      rwa [List.reverse_cons] at hprefix

/-- A token that is read to its end is the last one, if nothing follows. -/
theorem splitTokensFrom_eq_singleton {t : List Char} (hne : t ≠ [])
    (h : TokenPlace.start.Passes [] t) : splitTokensFrom .start [] t = [t] := by
  have hread : splitTokensFrom .start [] (t ++ []) = _ := splitTokensFrom_append h
  rw [List.append_nil, List.append_nil, splitTokensFrom] at hread
  rw [hread, List.isEmpty_eq_false_iff.mpr (List.reverse_ne_nil_iff.mpr hne), List.reverse_reverse]
  rfl

/-- A list of whole tokens is cut as it was just if each token but the last one ends where a
comma separates. -/
theorem splitTokensFrom_intercalate {ts : List (List Char)}
    (hwhole : ∀ t ∈ ts, t ≠ [] ∧ TokenPlace.start.Passes [] t) :
    splitTokensFrom .start [] ([','].intercalate ts) = ts ↔
      ∀ t ∈ ts.dropLast, TokenPlace.start.behind [] t = .inside := by
  induction ts with
  | nil => exact iff_of_true rfl (List.forall_mem_nil _)
  | cons t ts ih =>
    rw [List.forall_mem_cons] at hwhole
    obtain ⟨⟨hne, hpasses⟩, hwhole⟩ := hwhole
    cases ts with
    | nil =>
      refine iff_of_true ?_ (List.forall_mem_nil _)
      rw [List.intercalate_singleton, splitTokensFrom_eq_singleton hne hpasses]
    | cons u us =>
      rw [List.intercalate_cons_cons, List.append_assoc, splitTokensFrom_append hpasses,
        List.append_nil, List.dropLast_cons_cons, List.forall_mem_cons, ← ih hwhole]
      show splitTokensFrom _ _ (',' :: [','].intercalate (u :: us)) = _ ↔ _
      rw [splitTokensFrom]
      -- the first token has been read, and it depends on its end what the comma is
      by_cases hinside : TokenPlace.start.behind [] t = .inside
      · rw [if_pos ⟨rfl, hinside⟩, List.reverse_reverse, List.cons.injEq]
        exact ⟨fun h => ⟨hinside, h.2⟩, fun h => ⟨rfl, h.2⟩⟩
      · rw [if_neg fun h => hinside h.2]
        refine iff_of_false (fun h => ?_) fun h => hinside h.1
        -- the comma has become part of the first token
        obtain ⟨first, ts, hts, hprefix⟩ :=
          exists_splitTokensFrom (List.cons_ne_nil ',' t.reverse)
        rw [hts] at h
        obtain ⟨rfl, -⟩ := List.cons.inj h
        have hlength := hprefix.length_le
        simp only [List.length_reverse, List.length_cons] at hlength
        omega

/-- Tokens that have been cut from a text end where a comma separates, but for the last one. -/
theorem behind_of_mem_splitTokensFrom {t : List Char}
    (hplace : TokenPlace.start.behind [] token.reverse = place)
    (ht : t ∈ (splitTokensFrom place token cs).dropLast) :
    TokenPlace.start.behind [] t = .inside := by
  -- the invariant is that the place is the one behind what has been read of the token
  induction cs generalizing place token with
  | nil =>
    rw [splitTokensFrom] at ht
    split at ht <;> cases ht
  | cons c cs ih =>
    rw [splitTokensFrom] at ht
    split at ht
    · next hc =>
      rcases hrest : splitTokensFrom .start [] cs with _ | ⟨u, us⟩
      · rw [hrest] at ht
        cases ht
      · rw [hrest, List.dropLast_cons_cons] at ht
        rcases List.mem_cons.mp ht with rfl | ht
        · exact hplace.trans hc.2
        · exact @ih .start [] rfl (by rwa [hrest])
    · refine ih ?_ ht
      rw [List.reverse_cons, TokenPlace.behind_append, hplace, List.reverse_reverse,
        List.append_nil]
      rfl

end Cutting

/-! ### How keyword tokens end -/

namespace KeywordToken

variable {token cs front back : List Char} {n : Nat}

/-- The end of a range is one character, or digits. -/
theorem eq_of_bound? (h : bound? cs = some n) :
    (∃ c, cs = [c]) ∨ cs ≠ [] ∧ ∀ c ∈ cs, c.isDigit := by
  unfold bound? at h
  split at h
  · next hdigits => exact .inr ⟨hdigits.1, List.all_eq_true.mp hdigits.2.2⟩
  · split at h
    · exact .inl ⟨_, rfl⟩
    · cases h

/-- The ends of a range stand around the dash that joins them. -/
theorem eq_of_dashed? (h : dashed? cs = some (front, back)) : cs = front ++ '-' :: back := by
  induction cs generalizing front with
  | nil => cases h
  | cons c cs ih =>
    rw [dashed?.eq_def] at h
    simp only at h
    split at h
    · cases h
      rfl
    · obtain ⟨⟨front', back'⟩, hcs, he⟩ := Option.map_eq_some_iff.mp h
      cases he
      rw [ih hcs, List.cons_append]

end KeywordToken

namespace TokenPlace

variable {place : TokenPlace} {token cs back : List Char} {c : Char}

theorem digit_ne (hc : c.isDigit) : c ≠ ',' ∧ c ≠ '^' ∧ c ≠ '-' := by
  refine ⟨?_, ?_, ?_⟩ <;>
    · rintro rfl
      exact absurd hc (by decide)

theorem next_of_digit (hc : c.isDigit) : place.next token c = .inside := by
  obtain ⟨-, hcaret, hdash⟩ := digit_ne hc
  rw [next, if_neg fun h => hcaret h.1, if_neg fun h => hdash h.1]

/-- Digits are read to their end. -/
theorem inside_of_digits (hcs : ∀ c ∈ cs, c.isDigit) :
    inside.Passes token cs ∧ inside.behind token cs = .inside := by
  induction cs generalizing token with
  | nil => exact ⟨trivial, rfl⟩
  | cons c cs ih =>
    rw [List.forall_mem_cons] at hcs
    rw [Passes, behind, next_of_digit hcs.1]
    exact ⟨⟨fun h => (digit_ne hcs.1).1 h.1, (ih hcs.2).1⟩, (ih hcs.2).2⟩

/-- Whatever stands first in a token is read, be it a comma. -/
theorem inside_of_first {n : Nat} (hcs : KeywordToken.bound? cs = some n)
    (hcaret : token = [] → cs.head? ≠ some '^') :
    start.Passes token cs ∧ start.behind token cs = .inside := by
  rcases KeywordToken.eq_of_bound? hcs with ⟨c, rfl⟩ | ⟨hne, hdigits⟩
  · refine ⟨⟨nofun, trivial⟩, ?_⟩
    have hc : ¬ (c = '^' ∧ token = []) := fun h => hcaret h.2 (congrArg some h.1)
    show start.next token c = .inside
    rw [next, if_neg hc, if_neg fun h => h.2 rfl]
  · obtain ⟨c, cs, rfl⟩ := List.exists_cons_of_ne_nil hne
    rw [List.forall_mem_cons] at hdigits
    rw [Passes, behind, next_of_digit hdigits.1]
    exact ⟨⟨nofun, (inside_of_digits hdigits.2).1⟩, (inside_of_digits hdigits.2).2⟩

/-- So is the end of a range, and only if it is a dash does the place behind it look like one
within the range. -/
theorem behind_of_last {n : Nat} (hcs : KeywordToken.bound? cs = some n) (htoken : token ≠ []) :
    afterDash.Passes token cs ∧
      (afterDash.behind token cs = .inside ↔ cs.getLast? ≠ some '-') := by
  rcases KeywordToken.eq_of_bound? hcs with ⟨c, rfl⟩ | ⟨hne, hdigits⟩
  · refine ⟨⟨nofun, trivial⟩, ?_⟩
    show afterDash.next token c = .inside ↔ some c ≠ some '-'
    rw [next, if_neg fun h => htoken h.2]
    by_cases hc : c = '-'
    · rw [if_pos ⟨hc, nofun⟩, hc]
      exact iff_of_false nofun fun h => h rfl
    · rw [if_neg fun h => hc h.1]
      exact iff_of_true rfl fun h => hc (Option.some.inj h)
  · have hlast : cs.getLast? ≠ some '-' := fun h =>
      (digit_ne (hdigits _ (List.mem_of_getLast? h))).2.2 rfl
    obtain ⟨c, cs, rfl⟩ := List.exists_cons_of_ne_nil hne
    rw [List.forall_mem_cons] at hdigits
    rw [Passes, behind, next_of_digit hdigits.1]
    exact ⟨⟨nofun, (inside_of_digits hdigits.2).1⟩,
      iff_of_true (inside_of_digits hdigits.2).2 hlast⟩

theorem getLast?_of_suffix (h : ['-', '-'] <:+ cs) : cs.getLast? = some '-' := by
  obtain ⟨front, rfl⟩ := h
  rw [List.getLast?_append]
  rfl

/-- Two dashes at the end of a range are the one that joins its ends and the upper end. -/
theorem suffix_range_iff {n : Nat} (hback : KeywordToken.bound? back = some n) (front : List Char) :
    ['-', '-'] <:+ front ++ '-' :: back ↔ back.getLast? = some '-' := by
  -- a range has an upper end
  have hne : back ≠ [] := by
    rintro rfl
    cases hback
  constructor
  · intro h
    have hlast := getLast?_of_suffix h
    obtain ⟨c, back, rfl⟩ := List.exists_cons_of_ne_nil hne
    rwa [List.getLast?_append, List.getLast?_cons_cons, List.getLast?_cons, Option.some_or,
      ← List.getLast?_cons] at hlast
  · intro h
    rcases KeywordToken.eq_of_bound? hback with ⟨c, rfl⟩ | ⟨-, hdigits⟩
    · obtain rfl : c = '-' := Option.some.inj h
      exact ⟨front, rfl⟩
    · exact absurd rfl (digit_ne (hdigits _ (List.mem_of_getLast? h))).2.2

/-- A token without its `^` is read to its end, behind which a comma separates unless it ends
with two dashes. -/
theorem behind_of_coverage? {coverage : Coverage}
    (hcs : KeywordToken.coverage? cs = some coverage) (hcaret : token = [] → cs.head? ≠ some '^') :
    start.Passes token cs ∧ (start.behind token cs = .inside ↔ ¬ ['-', '-'] <:+ cs) := by
  -- one end of a range is too short for two dashes
  have hsingle {n : Nat} (hn : KeywordToken.bound? cs = some n) : ¬ ['-', '-'] <:+ cs := by
    intro h
    rcases KeywordToken.eq_of_bound? hn with ⟨c, rfl⟩ | ⟨-, hdigits⟩
    · exact absurd h.length_le (Nat.lt_irrefl 1)
    · exact (digit_ne (hdigits _ (List.mem_of_getLast? (getLast?_of_suffix h)))).2.2 rfl
  unfold KeywordToken.coverage? at hcs
  split at hcs
  · next hletters =>
    subst hletters
    have hat : KeywordToken.bound? ['@'] = some '@'.toNat := rfl
    obtain ⟨hpasses, hbehind⟩ := inside_of_first hat hcaret
    exact ⟨hpasses, iff_of_true hbehind (hsingle rfl)⟩
  · split at hcs
    · next front back hdashed =>
      obtain ⟨low, hlow, hcs⟩ := Option.bind_eq_some_iff.mp hcs
      obtain ⟨high, hhigh, -⟩ := Option.bind_eq_some_iff.mp hcs
      obtain rfl := KeywordToken.eq_of_dashed? hdashed
      obtain ⟨c, front, rfl⟩ : ∃ c cs, front = c :: cs := by
        cases front with
        | nil => cases hlow
        | cons c cs => exact ⟨c, cs, rfl⟩
      -- behind the lower end the place is inside, so that the dash there joins the ends
      obtain ⟨hfront, hinside⟩ := inside_of_first hlow hcaret
      obtain ⟨hpasses, hlast⟩ :=
        behind_of_last hhigh (List.cons_ne_nil '-' ((c :: front).reverse ++ token))
      rw [passes_append, behind_append, hinside, suffix_range_iff hhigh]
      exact ⟨⟨hfront, nofun, hpasses⟩, hlast⟩
    · obtain ⟨n, hn, -⟩ := Option.map_eq_some_iff.mp hcs
      obtain ⟨hpasses, hbehind⟩ := inside_of_first hn hcaret
      exact ⟨hpasses, iff_of_true hbehind (hsingle hn)⟩

end TokenPlace

/-- A `^` in front is taken off unless it is all there is. -/
theorem KeywordToken.eq_of_splitCaret {cs body : List Char} {excludes : Bool}
    (h : splitCaret cs = (excludes, body)) :
    cs = '^' :: body ∧ body ≠ [] ∨ cs = body ∧ (cs.head? = some '^' → cs = ['^']) := by
  unfold splitCaret at h
  split at h
  · cases h
    exact .inl ⟨rfl, List.cons_ne_nil _ _⟩
  · next hcaret =>
    cases h
    refine .inr ⟨rfl, fun hhead => ?_⟩
    obtain ⟨rest, rfl⟩ := List.head?_eq_some_iff.mp hhead
    cases rest with
    | nil => rfl
    | cons c rest => exact absurd rfl (hcaret c rest)

/-- A token that can be read is read to its end, behind which a comma separates unless the token
is a single `^` or ends with two dashes. -/
theorem KeywordToken.behind_of_parse {t : String} {k : KeywordToken} (h : parse t = .ok k) :
    t.toList ≠ [] ∧ TokenPlace.start.Passes [] t.toList ∧
      (TokenPlace.start.behind [] t.toList = .inside ↔
        t ≠ "^" ∧ ¬ ['-', '-'] <:+ t.toList) := by
  unfold parse at h
  rcases hsplit : splitCaret t.toList with ⟨excludes, body⟩
  rw [hsplit] at h
  simp only at h
  split at h
  · cases h
  · next hbody =>
    cases hcoverage : coverage? body with
    | none =>
      rw [hcoverage] at h
      cases h
    | some coverage =>
      rcases eq_of_splitCaret hsplit with ⟨ht, hne⟩ | ⟨ht, hcaret⟩
      · -- the `^` is read first, and the rest as if there were none
        have hfirst : TokenPlace.start.next [] '^' = .start := rfl
        have ht' : t ≠ "^" := by
          rintro rfl
          exact hne (List.cons.inj ht).2.symm
        have hdashes : ['-', '-'] <:+ '^' :: body ↔ ['-', '-'] <:+ body := by
          rw [List.suffix_cons_iff, or_iff_right (by simp)]
        obtain ⟨hpasses, hbehind⟩ :=
          TokenPlace.behind_of_coverage? hcoverage fun h => absurd h (List.cons_ne_nil '^' [])
        rw [ht, TokenPlace.Passes, TokenPlace.behind, hfirst, hdashes, hbehind]
        exact ⟨List.cons_ne_nil _ _, ⟨nofun, hpasses⟩, (and_iff_right ht').symm⟩
      · rw [← ht] at hbody hcoverage
        by_cases hhead : t.toList.head? = some '^'
        · have hcaret := hcaret hhead
          have ht' : t = "^" := String.toList_inj.mp hcaret
          rw [hcaret]
          exact ⟨List.cons_ne_nil _ _, ⟨nofun, trivial⟩, iff_of_false nofun fun h => h.1 ht'⟩
        · have ht' : t ≠ "^" := by
            rintro rfl
            exact hhead rfl
          have hcaret (_ : ([] : List Char) = []) : t.toList.head? ≠ some '^' := hhead
          obtain ⟨hpasses, hbehind⟩ := TokenPlace.behind_of_coverage? hcoverage hcaret
          exact ⟨hbody, hpasses, hbehind.trans (and_iff_right ht').symm⟩

namespace Tokenizer

/-- The lists of tokens that are cut as they were when they have been written with commas: where
all commas separate, each token has something in it but no comma; in a keyword list, each token
but the last one ends where a comma separates. -/
def Separable : Tokenizer → List String → Prop
  | .commas, ts => ∀ t ∈ ts, t ≠ "" ∧ ',' ∉ t.toList
  | .keywords, ts => ∀ t ∈ ts.dropLast, t ≠ "^" ∧ ¬ ['-', '-'] <:+ t.toList
  | .rule cut, ts => cut (SettingValue.joinTokens ts) = some ts

instance : (tokenizer : Tokenizer) → (ts : List String) → Decidable (tokenizer.Separable ts)
  | .commas, ts => inferInstanceAs (Decidable (∀ t ∈ ts, t ≠ "" ∧ ',' ∉ t.toList))
  | .keywords, ts =>
    inferInstanceAs (Decidable (∀ t ∈ ts.dropLast, t ≠ "^" ∧ ¬ ['-', '-'] <:+ t.toList))
  | .rule cut, ts => inferInstanceAs (Decidable (cut (SettingValue.joinTokens ts) = some ts))

/-- The tokens of a keyword list that can be read. -/
theorem exists_parse_of_mem {ts : List String} {k : KeywordClassifier}
    (h : KeywordClassifier.ofTokens ts = .ok k) :
    ∀ t ∈ ts, ∃ token, KeywordToken.parse t = .ok token := by
  obtain ⟨tokens, htokens, -⟩ := except_map_eq_ok h
  intro t ht
  obtain ⟨token, -, htoken⟩ := exists_of_mem_forall₂ (forall₂_of_mapM_eq_ok htokens) ht
  exact ⟨token, htoken⟩

/-- Tokens are cut as they were just if their characters are. -/
theorem splitTokens_joinTokens_eq_iff {ts : List String} :
    splitTokens (SettingValue.joinTokens ts) = ts ↔
      splitTokensFrom .start [] ([','].intercalate (ts.map String.toList)) =
        ts.map String.toList := by
  unfold splitTokens SettingValue.joinTokens
  rw [String.toList_ofList]
  constructor
  · intro hts
    conv_rhs => rw [← hts, map_toList_ofList]
  · intro hts
    rw [hts, map_ofList_toList]

/-- Keyword tokens are cut as they were just if they are separable. -/
theorem splitTokens_joinTokens_iff {ts : List String} {k : KeywordClassifier}
    (h : KeywordClassifier.ofTokens ts = .ok k) :
    splitTokens (SettingValue.joinTokens ts) = ts ↔ keywords.Separable ts := by
  have hparse := exists_parse_of_mem h
  -- each token can be read, and so no comma in it separates
  have hwhole : ∀ cs ∈ ts.map String.toList, cs ≠ [] ∧ TokenPlace.start.Passes [] cs := by
    intro cs hcs
    obtain ⟨t, ht, rfl⟩ := List.mem_map.mp hcs
    obtain ⟨token, htoken⟩ := hparse t ht
    exact ⟨(KeywordToken.behind_of_parse htoken).1, (KeywordToken.behind_of_parse htoken).2.1⟩
  rw [splitTokens_joinTokens_eq_iff, splitTokensFrom_intercalate hwhole, ← List.map_dropLast,
    List.forall_mem_map]
  refine forall₂_congr fun t ht => ?_
  obtain ⟨token, htoken⟩ := hparse t (List.dropLast_subset ts ht)
  exact (KeywordToken.behind_of_parse htoken).2.2

/-- **What is written with commas is cut as it was just if the tokens are separable.**  Tokens of
a keyword list are such that can be read. -/
theorem tokenize_joinTokens_iff (tokenizer : Tokenizer) {ts : List String}
    (h : tokenizer = .keywords → ∃ k, KeywordClassifier.ofTokens ts = .ok k) :
    tokenizer.tokenize (SettingValue.joinTokens ts) = some ts ↔ tokenizer.Separable ts := by
  cases tokenizer with
  | commas => exact ⟨of_mem_splitCommas, splitCommas_joinTokens⟩
  | keywords =>
    obtain ⟨k, hk⟩ := h rfl
    exact (Option.some.injEq _ _).to_iff.trans (splitTokens_joinTokens_iff hk)
  | rule cut => exact Iff.rfl

/-- **What has been cut from a text is separable.** -/
theorem separable_of_tokenize {tokenizer : Tokenizer} {s : String} {ts : List String}
    (hrule : ∀ cut, tokenizer ≠ .rule cut) (hs : tokenizer.tokenize s = some ts)
    (h : tokenizer = .keywords → ∃ k, KeywordClassifier.ofTokens ts = .ok k) :
    tokenizer.Separable ts := by
  cases tokenizer with
  | commas => exact of_mem_splitCommas hs
  | keywords =>
    obtain ⟨k, hk⟩ := h rfl
    obtain rfl : splitTokens s = ts := Option.some.inj hs
    intro t ht
    obtain ⟨token, htoken⟩ := exists_parse_of_mem hk t (List.dropLast_subset _ ht)
    -- where a token was cut off there was a comma that separates
    refine (KeywordToken.behind_of_parse htoken).2.2.mp ?_
    rw [splitTokens, ← List.map_dropLast] at ht
    obtain ⟨cs, hcs, rfl⟩ := List.mem_map.mp ht
    rw [String.toList_ofList]
    have hstart : TokenPlace.start.behind [] ([] : List Char).reverse = .start := rfl
    exact behind_of_mem_splitTokensFrom hstart hcs
  | rule cut => exact absurd rfl (hrule cut)

end Tokenizer

end ModalScript
