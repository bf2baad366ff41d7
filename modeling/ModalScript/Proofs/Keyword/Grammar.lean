/-
What keyword lists mean.

The end of a range is one to three digits, which are a code point, or one other character, which
stands for itself.  A token is `@`, one such end, or two of them with a dash between, the lower
one first; and a `^` in front of it excludes what it covers.  `Spells` says so without looking
for anything: it gives the parts of a token, whatever they are made of.

Reading goes the other way.  It takes the first dash with something on both sides for the one
that joins two ends, although a dash may be an end itself, and a digit for a code point rather
than for itself; that it finds just the parts of the grammar is `parse_eq_ok_iff`.  A classifier
then looks for the last token that covers a character, which comes to the same as going through
the tokens from the left and changing one's mind (`isKeyword_eq_foldl`).  `Covers` says of the
characters of a token what they cover, and a token that has been read covers just this
(`WritesCoverage.contains_iff`).

Main result: `KeywordClassifier.ofTokens_grammar`.
-/
import ModalScript.Proofs.Setting.Separators

namespace ModalScript

namespace KeywordToken

/-! ### The grammar of tokens -/

/-- The characters are the end of a range. -/
inductive WritesBound : List Char → Nat → Prop
  | codePoint {digits : List Char} : digits ≠ [] → digits.length ≤ 3 →
      (∀ d ∈ digits, d.isDigit = true) → WritesBound digits (Nat.ofDigitChars 10 digits 0)
  | character {c : Char} : c.isDigit = false → WritesBound [c] c.toNat

/-- The characters are a token without its `^`.  For `@` there is a meaning of its own. -/
inductive WritesCoverage : List Char → Coverage → Prop
  | letters : WritesCoverage ['@'] .letters
  | single {cs : List Char} {n : Nat} : cs ≠ ['@'] → WritesBound cs n →
      WritesCoverage cs (.range n n)
  | range {front back : List Char} {low high : Nat} : WritesBound front low →
      WritesBound back high → low ≤ high →
      WritesCoverage (front ++ '-' :: back) (.range low high)

/-- The characters are a token.  A `^` at the start excludes just if something follows it. -/
inductive Writes : List Char → Bool → Coverage → Prop
  | excluding {cs : List Char} {coverage : Coverage} : cs ≠ [] → WritesCoverage cs coverage →
      Writes ('^' :: cs) true coverage
  | including {cs : List Char} {coverage : Coverage} : (∀ rest, rest ≠ [] → cs ≠ '^' :: rest) →
      WritesCoverage cs coverage → Writes cs false coverage

/-- The text is that of a token, which says what the characters of the text say. -/
def Spells (t : String) (k : KeywordToken) : Prop :=
  k.text = t ∧ Writes t.toList k.excludes k.coverage

/-! ### Reading finds the parts of the grammar -/

variable {cs front back : List Char} {n low high : Nat} {excludes : Bool} {coverage : Coverage}

theorem WritesBound.ne_nil (h : WritesBound cs n) : cs ≠ [] := by
  cases h with
  | codePoint hne => exact hne
  | character => exact List.cons_ne_nil _ _

/-- A dash can only be the whole of a bound. -/
theorem WritesBound.ne_dash (h : WritesBound cs n) : ∀ c ∈ cs.tail, c ≠ '-' := by
  cases h with
  | codePoint _ _ hdigits =>
    intro c hc
    exact (TokenPlace.digit_ne (hdigits c (List.mem_of_mem_tail hc))).2.2
  | character => exact List.forall_mem_nil _

/-- An end of a range is read just where there is one. -/
theorem bound?_eq_some_iff : bound? cs = some n ↔ WritesBound cs n := by
  constructor
  · intro h
    unfold bound? at h
    split at h
    · next hdigits =>
      cases h
      exact .codePoint hdigits.1 hdigits.2.1 (List.all_eq_true.mp hdigits.2.2)
    · next hdigits =>
      split at h
      · next c =>
        cases h
        -- one digit alone is a code point, and not itself
        refine .character (Bool.eq_false_iff.mpr fun hc => hdigits ?_)
        exact ⟨List.cons_ne_nil _ _, Nat.le_add_left 1 2, by rw [List.all_cons, hc]; rfl⟩
      · cases h
  · intro h
    cases h with
    | codePoint hne hlength hdigits =>
      exact if_pos ⟨hne, hlength, List.all_eq_true.mpr hdigits⟩
    | @character c hc =>
      refine if_neg fun hdigits => ?_
      rw [List.all_cons, hc] at hdigits
      exact absurd hdigits.2.2 (by simp)

/-- The first dash with something on both sides is the one behind a front that has no other dash
than its first character. -/
theorem dashed?_append (hfront : front ≠ []) (hdash : ∀ c ∈ front.tail, c ≠ '-')
    (hback : back ≠ []) : dashed? (front ++ '-' :: back) = some (front, back) := by
  obtain ⟨d, back, rfl⟩ := List.exists_cons_of_ne_nil hback
  -- the first character may be a dash itself, but nothing stands before it
  induction front with
  | nil => exact absurd rfl hfront
  | cons c front ih =>
    cases front with
    | nil => rfl
    | cons c' front =>
      rw [List.tail_cons, List.forall_mem_cons] at hdash
      have hrest := ih (List.cons_ne_nil _ _) hdash.2
      rw [List.cons_append, dashed?.eq_def]
      simp only
      split
      · next he => exact absurd (List.cons.inj he).1 hdash.1
      · rw [hrest]
        rfl

/-- A single bound has no dash with something on both sides. -/
theorem WritesBound.dashed?_eq_none (h : WritesBound cs n) : dashed? cs = none := by
  cases h with
  | codePoint _ _ hdigits =>
    cases hcs : dashed? cs with
    | none => rfl
    | some p =>
      have hdash : '-' ∈ cs := by
        rw [eq_of_dashed? hcs]
        exact List.mem_append_right _ List.mem_cons_self
      exact absurd rfl (TokenPlace.digit_ne (hdigits _ hdash)).2.2
  | character => rfl

theorem WritesBound.range_ne_at (h : WritesBound front low) (back : List Char) :
    front ++ '-' :: back ≠ ['@'] := by
  obtain ⟨c, front, rfl⟩ := List.exists_cons_of_ne_nil h.ne_nil
  intro he
  have htail := (List.cons.inj he).2
  exact absurd htail (List.append_ne_nil_of_right_ne_nil _ (List.cons_ne_nil _ _))

/-- A token without its `^` is read just where there is one. -/
theorem coverage?_eq_some_iff : coverage? cs = some coverage ↔ WritesCoverage cs coverage := by
  constructor
  · intro h
    unfold coverage? at h
    split at h
    · next hat =>
      cases h
      exact hat ▸ .letters
    · next hat =>
      split at h
      · next front back hdashed =>
        obtain ⟨low, hlow, h⟩ := Option.bind_eq_some_iff.mp h
        obtain ⟨high, hhigh, h⟩ := Option.bind_eq_some_iff.mp h
        split at h
        · next hle =>
          cases h
          rw [eq_of_dashed? hdashed]
          exact .range (bound?_eq_some_iff.mp hlow) (bound?_eq_some_iff.mp hhigh) hle
        · cases h
      · obtain ⟨n, hn, rfl⟩ := Option.map_eq_some_iff.mp h
        exact .single hat (bound?_eq_some_iff.mp hn)
  · intro h
    unfold coverage?
    cases h with
    | letters => rfl
    | single hat hn => rw [if_neg hat, hn.dashed?_eq_none, bound?_eq_some_iff.mpr hn]; rfl
    | @range front back low high hlow hhigh hle =>
      rw [if_neg (hlow.range_ne_at back), dashed?_append hlow.ne_nil hlow.ne_dash hhigh.ne_nil]
      simp only [bound?_eq_some_iff.mpr hlow, bound?_eq_some_iff.mpr hhigh]
      exact if_pos hle

theorem WritesCoverage.ne_nil (h : WritesCoverage cs coverage) : cs ≠ [] := by
  cases h with
  | letters => exact List.cons_ne_nil _ _
  | single _ hn => exact hn.ne_nil
  | range => exact List.append_ne_nil_of_right_ne_nil _ (List.cons_ne_nil _ _)

/-! ### What a token covers -/

/-- The letters from U+0080 to U+00FF. -/
def latinLetters : List Char :=
  "ªµºÀÁÂÃÄÅÆÇÈÉÊËÌÍÎÏÐÑÒÓÔÕÖØÙÚÛÜÝÞßàáâãäåæçèéêëìíîïðñòóôõöøùúûüýþÿ".toList

/-- Below U+0100 the letters are those of ASCII and the ones that are listed. -/
theorem isLatinLetter_iff {c : Char} (hc : c.toNat < 0x100) :
    isLatinLetter c.toNat = true ↔ c.isAlpha = true ∨ c ∈ latinLetters := by
  -- each of the 256 characters is looked at
  have hall : ∀ n < 0x100, isLatinLetter n = true ↔
      (Char.ofNat n).isAlpha = true ∨ Char.ofNat n ∈ latinLetters := by decide +kernel
  rw [hall c.toNat hc, Char.ofNat_toNat]

/-- What the characters of a token cover if they are written without a `^`: `@` covers the
letters, the end of a range its character, and two ends all that is between them. -/
inductive Covers : List Char → Char → Prop
  | letter {c : Char} : c.isAlpha = true ∨ c ∈ latinLetters → Covers ['@'] c
  | single {cs : List Char} {c : Char} : cs ≠ ['@'] → WritesBound cs c.toNat → Covers cs c
  | between {front back : List Char} {low high : Nat} {c : Char} : WritesBound front low →
      WritesBound back high → low ≤ c.toNat → c.toNat ≤ high → Covers (front ++ '-' :: back) c

/-- The characters of a token can be read in one way only. -/
theorem WritesCoverage.unique {coverage' : Coverage} (h : WritesCoverage cs coverage)
    (h' : WritesCoverage cs coverage') : coverage' = coverage :=
  Option.some.inj ((coverage?_eq_some_iff.mpr h').symm.trans (coverage?_eq_some_iff.mpr h))

/-- **A token that has been read covers what its characters say.** -/
theorem WritesCoverage.contains_iff (h : WritesCoverage cs coverage) {c : Char}
    (hc : c.toNat < 0x100) : coverage.contains c.toNat = true ↔ Covers cs c := by
  constructor
  · intro hcontains
    cases h with
    | letters => exact .letter ((isLatinLetter_iff hc).mp hcontains)
    | single hat hn =>
      simp only [Coverage.contains, Bool.and_eq_true, decide_eq_true_eq] at hcontains
      obtain rfl := Nat.le_antisymm hcontains.1 hcontains.2
      exact .single hat hn
    | range hlow hhigh =>
      simp only [Coverage.contains, Bool.and_eq_true, decide_eq_true_eq] at hcontains
      exact .between hlow hhigh hcontains.1 hcontains.2
  · intro hcovers
    -- however the characters cover `c`, they are read as what covers it
    cases hcovers with
    | letter hletter =>
      rw [WritesCoverage.unique .letters h]
      exact (isLatinLetter_iff hc).mpr hletter
    | single hat hn =>
      rw [WritesCoverage.unique (.single hat hn) h]
      simp [Coverage.contains]
    | between hlow hhigh hle hge =>
      rw [WritesCoverage.unique (.range hlow hhigh (Nat.le_trans hle hge)) h]
      simp [Coverage.contains, hle, hge]

/-! ### Reading a token -/

theorem splitCaret_of_caret (h : cs ≠ []) : splitCaret ('^' :: cs) = (true, cs) := by
  obtain ⟨c, cs, rfl⟩ := List.exists_cons_of_ne_nil h
  rfl

theorem writes_of_caret (h : cs ≠ []) :
    Writes ('^' :: cs) excludes coverage ↔ excludes = true ∧ WritesCoverage cs coverage := by
  constructor
  · intro hwrites
    cases hwrites with
    | excluding _ hcoverage => exact ⟨rfl, hcoverage⟩
    | including hne => exact absurd rfl (hne cs h)
  · rintro ⟨rfl, hcoverage⟩
    exact .excluding h hcoverage

theorem splitCaret_of_no_caret (h : ∀ rest, rest ≠ [] → cs ≠ '^' :: rest) :
    splitCaret cs = (false, cs) := by
  unfold splitCaret
  split
  · exact absurd rfl (h _ (List.cons_ne_nil _ _))
  · rfl

theorem writes_of_no_caret (h : ∀ rest, rest ≠ [] → cs ≠ '^' :: rest) :
    Writes cs excludes coverage ↔ excludes = false ∧ WritesCoverage cs coverage := by
  constructor
  · intro hwrites
    cases hwrites with
    | excluding hrest => exact absurd rfl (h _ hrest)
    | including _ hcoverage => exact ⟨rfl, hcoverage⟩
  · rintro ⟨rfl, hcoverage⟩
    exact .including h hcoverage

/-- A token is read as what its `^` leaves of it. -/
theorem parse_eq_ok_of_split {t : String} {k : KeywordToken}
    (h : splitCaret t.toList = (excludes, cs)) :
    parse t = .ok k ↔ k.text = t ∧ k.excludes = excludes ∧ WritesCoverage cs k.coverage := by
  unfold parse
  rw [h, ← coverage?_eq_some_iff]
  simp only
  split
  · next hnil =>
    refine iff_of_false (fun hk => ?_) fun hk => ?_
    · cases hk
    · exact (coverage?_eq_some_iff.mp hk.2.2).ne_nil hnil
  · cases coverage? cs with
    | none =>
      refine iff_of_false (fun hk => ?_) fun hk => ?_
      · cases hk
      · cases hk.2.2
    | some coverage =>
      obtain ⟨text, excludes', coverage'⟩ := k
      simp only [Except.ok.injEq, mk.injEq, Option.some.injEq]
      constructor
      · rintro ⟨rfl, rfl, rfl⟩
        exact ⟨rfl, rfl, rfl⟩
      · rintro ⟨rfl, rfl, rfl⟩
        exact ⟨rfl, rfl, rfl⟩

/-- **Reading a token finds what the grammar says of it.** -/
theorem parse_eq_ok_iff {t : String} {k : KeywordToken} : parse t = .ok k ↔ Spells t k := by
  -- a lone `^` belongs to the second case, where it is an end of a range
  by_cases hcaret : ∃ rest, rest ≠ [] ∧ t.toList = '^' :: rest
  · obtain ⟨rest, hrest, ht⟩ := hcaret
    rw [Spells, ht, writes_of_caret hrest, parse_eq_ok_of_split (ht ▸ splitCaret_of_caret hrest)]
  · have hne (rest : List Char) (hrest : rest ≠ []) : t.toList ≠ '^' :: rest :=
      fun ht => hcaret ⟨rest, hrest, ht⟩
    rw [Spells, writes_of_no_caret hne, parse_eq_ok_of_split (splitCaret_of_no_caret hne)]

end KeywordToken

/-! ### Reading a list -/

namespace KeywordClassifier

/-- Lists are accepted just if all their tokens are. -/
theorem ofTokens_eq_ok_iff {ts : List String} {k : KeywordClassifier} :
    ofTokens ts = .ok k ↔ List.Forall₂ KeywordToken.Spells ts k.tokens.reverse := by
  -- the grammar is what the reader finds
  have hspells : KeywordToken.Spells = fun t k => KeywordToken.parse t = .ok k := by
    funext t k
    exact propext KeywordToken.parse_eq_ok_iff.symm
  rw [hspells]
  constructor
  · intro h
    obtain ⟨ks, hks, rfl⟩ := except_map_eq_ok h
    rw [List.reverse_reverse]
    exact forall₂_of_mapM_eq_ok hks
  · intro h
    rw [ofTokens, mapM_eq_ok_of_forall₂ h]
    exact congrArg (fun ks => Except.ok (mk ks)) (List.reverse_reverse k.tokens)

/-- Each token that covers a code point changes the answer for it. -/
def answer (n : Nat) (b : Bool) (k : KeywordToken) : Bool :=
  if k.coverage.contains n then !k.excludes else b

/-- Searching for the last token that covers a character comes to the same as going through the
tokens from the left. -/
theorem isKeyword_eq_foldl (k : KeywordClassifier) {c : Char} (hc : c.toNat < 0x100) :
    k.isKeyword c = k.tokens.reverse.foldl (answer c.toNat) false := by
  obtain ⟨ks⟩ := k
  rw [isKeyword, if_neg (Nat.not_le.mpr hc), List.foldl_reverse]
  induction ks with
  | nil => rfl
  | cons k ks ih =>
    rw [List.foldr_cons, ← ih, List.find?_cons, answer]
    cases k.coverage.contains c.toNat <;> rfl

/-- Tokens that do not cover a code point change nothing. -/
theorem foldl_answer_of_uncovered {n : Nat} {ks : List KeywordToken}
    (h : ∀ k ∈ ks, k.coverage.contains n = false) (b : Bool) : ks.foldl (answer n) b = b := by
  induction ks with
  | nil => rfl
  | cons k ks ih =>
    rw [List.forall_mem_cons] at h
    have hk : answer n b k = b := by
      rw [answer, h.1]
      rfl
    rw [List.foldl_cons, hk, ih h.2]

/-- The classifier answers as tokens say that are gone through from left to right. -/
structure Follows (k : KeywordClassifier) (ks : List KeywordToken) : Prop where
  /-- The answer is no at first, and each token that covers the character changes it. -/
  below : ∀ c : Char, c.toNat < 0x100 → k.isKeyword c = ks.foldl (answer c.toNat) false
  /-- So the last token that covers the character decides. -/
  last : ∀ (c : Char) before last after, c.toNat < 0x100 → ks = before ++ last :: after →
    last.coverage.contains c.toNat = true →
    (∀ later ∈ after, later.coverage.contains c.toNat = false) → k.isKeyword c = !last.excludes
  /-- Whatever the tokens say. -/
  above : ∀ c : Char, 0x100 ≤ c.toNat → k.isKeyword c = true

/-- A classifier follows its tokens, which it keeps the last one first. -/
theorem follows_reverse (k : KeywordClassifier) : k.Follows k.tokens.reverse where
  below _ hc := k.isKeyword_eq_foldl hc
  last c before last after hc hks hlast hafter := by
    rw [k.isKeyword_eq_foldl hc, hks, List.foldl_append, List.foldl_cons,
      foldl_answer_of_uncovered hafter, answer, if_pos hlast]
  above _ hc := if_pos hc

/-- **The grammar of keyword lists, and what they mean.**  A list is accepted just if each of its
tokens is one of the grammar, and then the tokens can be read in one way only, which the
classifier follows. -/
theorem ofTokens_grammar (ts : List String) :
    ((∃ k, ofTokens ts = .ok k) ↔
      ∀ t ∈ ts, ∃ excludes coverage, KeywordToken.Writes t.toList excludes coverage) ∧
    ∀ k, ofTokens ts = .ok k →
      ∃ ks, List.Forall₂ KeywordToken.Spells ts ks ∧
        (∀ ks', List.Forall₂ KeywordToken.Spells ts ks' → ks' = ks) ∧ k.Follows ks := by
  refine ⟨⟨?_, fun h => ?_⟩, fun k hk =>
    ⟨k.tokens.reverse, ofTokens_eq_ok_iff.mp hk, fun ks hks => ?_, k.follows_reverse⟩⟩
  · rintro ⟨k, hk⟩ t ht
    obtain ⟨token, -, htoken⟩ := exists_of_mem_forall₂ (ofTokens_eq_ok_iff.mp hk) ht
    exact ⟨_, _, htoken.2⟩
  · cases hts : ofTokens ts with
    | ok k => exact ⟨k, rfl⟩
    | error e =>
      obtain ⟨t, ht, herror⟩ := exists_of_mapM_eq_error (except_map_eq_error hts)
      obtain ⟨excludes, coverage, hwrites⟩ := h t ht
      have hparse := KeywordToken.parse_eq_ok_iff.mpr
        (show KeywordToken.Spells t ⟨t, excludes, coverage⟩ from ⟨rfl, hwrites⟩)
      cases herror.symm.trans hparse
  · rw [← List.reverse_reverse ks] at hks
    have hk' : ofTokens ts = .ok ⟨ks.reverse⟩ := ofTokens_eq_ok_iff.mpr hks
    obtain rfl := Except.ok.inj (hk'.symm.trans hk)
    exact (List.reverse_reverse ks).symm

/-- A list in which a dash and a comma are ends of a range, a digit is a code point, and later
tokens take back what earlier ones say. -/
theorem ofTokens_grammar_of_overrides :
    ∃ k, ofTokens [",--", "a-z", "^m", "9", "^^"] = .ok k ∧
      (∃ ks, List.Forall₂ KeywordToken.Spells [",--", "a-z", "^m", "9", "^^"] ks ∧
        (∀ ks', List.Forall₂ KeywordToken.Spells [",--", "a-z", "^m", "9", "^^"] ks' →
          ks' = ks) ∧ k.Follows ks) ∧
      k.isKeyword '-' = true ∧ k.isKeyword 'l' = true ∧ k.isKeyword 'm' = false ∧
      k.isKeyword '9' = false ∧ k.isKeyword '\t' = true := by
  obtain ⟨k, hk, hdash, hl, hm, hdigit, htab⟩ :
      ∃ k, ofTokens [",--", "a-z", "^m", "9", "^^"] = .ok k ∧
        k.isKeyword '-' = true ∧ k.isKeyword 'l' = true ∧ k.isKeyword 'm' = false ∧
        k.isKeyword '9' = false ∧ k.isKeyword '\t' = true :=
    ⟨_, rfl, rfl, rfl, rfl, rfl, rfl⟩
  exact ⟨k, hk, (ofTokens_grammar _).2 k hk, hdash, hl, hm, hdigit, htab⟩

end KeywordClassifier

end ModalScript
