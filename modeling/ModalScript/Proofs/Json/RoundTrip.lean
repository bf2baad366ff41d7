/-
What is written as JSON is read again, by the codec of the program.

The writer gives a standard text (`spells_text`), and the reader takes every standard text for
the value that it stands for (`parse_of_spells`), blanks and escapes included.

The reader takes a text from left to right, and each lemma says of one part of the grammar that
the reader, in front of such a part and whatever follows, answers what is written there and leaves
what follows.  Of what follows only numbers care: a further digit or a point would belong to them,
so that behind a value the text has to be over or to go on with a comma, a closing bracket or a
blank (`Ends`).  The blanks behind a value are left by a number and taken by a container, which
makes no difference to whatever skips blanks first.

Main results: `compact_writesStandard`, `compact_readsStandard`.
-/
import Mathlib.Data.String.Basic
import ModalScript.Proofs.Decimal.Numeral
import ModalScript.Proofs.Json.Grammar

namespace ModalScript.Json

/-! ### Blanks -/

theorem skipBlanks_cons {c : Char} (hc : isBlank c = false) (cs : List Char) :
    skipBlanks (c :: cs) = c :: cs := by
  rw [skipBlanks, List.dropWhile_cons_of_neg (by rw [hc]; exact Bool.false_ne_true)]

theorem skipBlanks_append {blanks : List Char} (hblanks : Blanks blanks) (cs : List Char) :
    skipBlanks (blanks ++ cs) = skipBlanks cs :=
  List.dropWhile_append_of_pos hblanks

theorem skipBlanks_skipBlanks (cs : List Char) : skipBlanks (skipBlanks cs) = skipBlanks cs := by
  induction cs with
  | nil => rfl
  | cons c cs ih =>
    cases hc : isBlank c with
    | true =>
      have hskip : skipBlanks (c :: cs) = skipBlanks cs := List.dropWhile_cons_of_pos hc
      rw [hskip, ih]
    | false => rw [skipBlanks_cons hc, skipBlanks_cons hc]

theorem count_skipBlanks {c : Char} (hc : isBlank c = false) (cs : List Char) :
    (skipBlanks cs).count c = cs.count c := by
  induction cs with
  | nil => rfl
  | cons d cs ih =>
    cases hd : isBlank d with
    | true =>
      have hskip : skipBlanks (d :: cs) = skipBlanks cs := List.dropWhile_cons_of_pos hd
      -- a blank that is taken off is none of the characters counted
      have hne : d ≠ c := by
        rintro rfl
        rw [hc] at hd
        cases hd
      rw [hskip, ih, List.count_cons_of_ne hne]
    | false => rw [skipBlanks_cons hd]

/-! ### Strings -/

theorem length_le_byteLength (cs : List Char) : cs.length ≤ byteLength cs := by
  unfold byteLength
  rw [String.utf8ByteSize_ofList]
  induction cs with
  | nil => exact Nat.zero_le _
  | cons c cs ih =>
    rw [String.utf8Len_cons, List.length_cons]
    exact Nat.add_le_add ih c.utf8Size_pos

/-- Reading digits goes on from the value of those that were read. -/
theorem continued?_cons {radix acc n : Nat} {c : Char} {cs : List Char}
    (h : Decimal.continued? radix acc (c :: cs) = some n) :
    ∃ d, Decimal.digit? radix c = some d ∧
      Decimal.continued? radix (acc * radix + d) cs = some n := by
  rw [Decimal.continued?] at h
  cases hd : Decimal.digit? radix c with
  | none =>
    rw [hd] at h
    cases h
  | some d =>
    rw [hd] at h
    exact ⟨d, rfl, h⟩

/-- Four hexadecimal digits are read as the number that they write. -/
theorem hex4_of_spells {cs : List Char} {n : Nat} (hcs : SpellsHex cs n) (rest : List Char) :
    hex4 (cs ++ rest) = .ok (n, rest) := by
  obtain ⟨hlength, hvalue⟩ := hcs
  have hlong : ¬ byteLength (cs ++ rest) < 4 := by
    have hbytes := length_le_byteLength (cs ++ rest)
    rw [List.length_append, hlength] at hbytes
    omega
  obtain ⟨a, cs, rfl⟩ := List.exists_cons_of_length_eq_add_one hlength
  have hlength : cs.length = 3 := Nat.succ.inj hlength
  obtain ⟨b, c, d, rfl⟩ := List.length_eq_three.mp hlength
  have hvalue : Decimal.continued? 16 0 [a, b, c, d] = some n := hvalue
  -- the value of the digits, one after the other
  obtain ⟨na, ha, hvalue⟩ := continued?_cons hvalue
  obtain ⟨nb, hb, hvalue⟩ := continued?_cons hvalue
  obtain ⟨nc, hc, hvalue⟩ := continued?_cons hvalue
  obtain ⟨nd, hd, hvalue⟩ := continued?_cons hvalue
  rw [Nat.zero_mul, Nat.zero_add] at hvalue
  cases hvalue
  unfold hex4
  rw [if_neg hlong]
  simp only [List.cons_append, List.nil_append, hexValue?, ha, hb, hc, hd]

theorem unicodeEscape_of_hex4 {cs rest : List Char} {n : Nat} (h : hex4 cs = .ok (n, rest)) :
    unicodeEscape cs =
      if 0xDC00 ≤ n ∧ n ≤ 0xDFFF then atLast .loneSurrogate rest
      else if 0xD800 ≤ n ∧ n ≤ 0xDBFF then lowSurrogate n rest
      else .ok (Char.ofNat n, rest) := by
  unfold unicodeEscape
  rw [h]
  rfl

/-- The second half of a pair stands behind an escape of its own. -/
theorem lowSurrogate_of_hex4 {high low : Nat} {cs rest : List Char}
    (h : hex4 cs = .ok (low, rest)) :
    lowSurrogate high ('\\' :: 'u' :: cs) =
      if 0xDC00 ≤ low ∧ low ≤ 0xDFFF then
        .ok (Char.ofNat ((high - 0xD800) * 1024 + (low - 0xDC00) + 0x10000), rest)
      else atLast .loneSurrogate rest := by
  rw [lowSurrogate, h]
  rfl

/-- The number of a character is no surrogate and not too large. -/
theorem toNat_valid (c : Char) : c.toNat < 0xD800 ∨ 0xDFFF < c.toNat ∧ c.toNat < 0x110000 :=
  c.valid

/-- A character whose number has four digits is read from them. -/
theorem unicodeEscape_hex {cs : List Char} {c : Char} (hcs : SpellsHex cs c.toNat)
    (rest : List Char) : unicodeEscape (cs ++ rest) = .ok (c, rest) := by
  have hvalid := toNat_valid c
  -- the number of a character lies outside both ranges of surrogates
  rw [unicodeEscape_of_hex4 (hex4_of_spells hcs rest), if_neg (by omega), if_neg (by omega),
    Char.ofNat_toNat]

/-- The two halves of a large number are read as the character with this number. -/
theorem unicodeEscape_surrogates {high low : List Char} {c : Char} (hlarge : 0x10000 ≤ c.toNat)
    (hhigh : SpellsHex high (0xD800 + (c.toNat - 0x10000) / 0x400))
    (hlow : SpellsHex low (0xDC00 + (c.toNat - 0x10000) % 0x400)) (rest : List Char) :
    unicodeEscape (high ++ '\\' :: 'u' :: (low ++ rest)) = .ok (c, rest) := by
  have hvalid := toNat_valid c
  -- the ten high bits and the ten low bits make up the number again
  have hvalue : (0xD800 + (c.toNat - 0x10000) / 0x400 - 0xD800) * 1024 +
      (0xDC00 + (c.toNat - 0x10000) % 0x400 - 0xDC00) + 0x10000 = c.toNat := by
    omega
  rw [unicodeEscape_of_hex4 (hex4_of_spells hhigh _), if_neg (by omega), if_pos (by omega),
    lowSurrogate_of_hex4 (hex4_of_spells hlow rest), if_pos (by omega), hvalue, Char.ofNat_toNat]

/-- A character of a string is read, however it is written. -/
theorem stringRest_of_spells {ds : List Char} {c : Char} (hc : SpellsChar ds c) (fuel : Nat)
    (done rest : List Char) :
    stringRest (fuel + 1) done (ds ++ rest) = stringRest fuel (c :: done) rest := by
  -- three of the four spellings are escapes, read behind their backslash
  have hescape (cs left : List Char) (hcs : escape cs = .ok (c, left)) :
      stringRest (fuel + 1) done ('\\' :: cs) = stringRest fuel (c :: done) left := by
    rw [stringRest, if_neg (by decide), if_pos rfl, hcs]
  cases hc with
  | itself hmin hquote hslash =>
    show stringRest (fuel + 1) done (c :: rest) = _
    rw [stringRest, if_neg hquote, if_neg hslash, if_neg (by omega)]
  | short hmem =>
    simp only [shortEscapes, List.mem_cons, Prod.mk.injEq, List.not_mem_nil, or_false] at hmem
    rcases hmem with ⟨rfl, rfl⟩ | ⟨rfl, rfl⟩ | ⟨rfl, rfl⟩ | ⟨rfl, rfl⟩ | ⟨rfl, rfl⟩ | ⟨rfl, rfl⟩ |
      ⟨rfl, rfl⟩ | ⟨rfl, rfl⟩ <;> exact hescape _ _ rfl
  | @hex cs _ hcs => exact hescape ('u' :: (cs ++ rest)) rest (unicodeEscape_hex hcs rest)
  | @surrogates high low _ hlarge hhigh hlow =>
    have hpair := unicodeEscape_surrogates hlarge hhigh hlow rest
    have hread := hescape ('u' :: (high ++ '\\' :: 'u' :: (low ++ rest))) rest hpair
    simpa only [List.cons_append, List.append_assoc] using hread

/-- No character is written as nothing. -/
theorem SpellsChar.length_pos {ds : List Char} {c : Char} (hc : SpellsChar ds c) :
    0 < ds.length := by
  cases hc <;> exact Nat.succ_pos _

theorem SpellsChars.length_le {body s : List Char} (h : SpellsChars body s) :
    s.length ≤ body.length := by
  induction h with
  | nil => exact Nat.le_refl _
  | cons hc _ ih =>
    have hpos := hc.length_pos
    rw [List.length_append, List.length_cons]
    omega

/-- The characters of a string are read one after the other, behind those read before. -/
theorem stringRest_of_spellsChars {body s : List Char} (h : SpellsChars body s) {fuel : Nat}
    (hfuel : s.length < fuel) (done rest : List Char) :
    stringRest fuel done (body ++ '"' :: rest) =
      .ok (String.ofList (done.reverse ++ s), rest) := by
  obtain ⟨fuel, rfl⟩ := Nat.exists_eq_add_one.mpr (Nat.zero_lt_of_lt hfuel)
  induction h generalizing fuel done with
  | nil =>
    rw [List.append_nil]
    rfl
  | @cons ds cs s c hc _ ih =>
    have hlength : s.length < fuel := Nat.lt_of_succ_lt_succ hfuel
    obtain ⟨fuel, rfl⟩ := Nat.exists_eq_add_one.mpr (Nat.zero_lt_of_lt hlength)
    rw [List.append_assoc, stringRest_of_spells hc, ih _ fuel hlength, List.reverse_cons,
      List.append_assoc]
    rfl

/-- A string is read up to its closing quote. -/
theorem stringBody_of_spells {body : List Char} {s : String} (h : SpellsChars body s.toList)
    (rest : List Char) : stringBody (body ++ '"' :: rest) = .ok (s, rest) := by
  -- the fuel is the length of the text, and no character is written as nothing
  have hfuel : s.toList.length < (body ++ '"' :: rest).length := by
    have hlength := h.length_le
    rw [List.length_append, List.length_cons]
    omega
  rw [stringBody, stringRest_of_spellsChars h hfuel]
  show Except.ok (String.ofList s.toList, rest) = _
  rw [String.ofList_toList]

/-! ### Integers -/

/-- A text that may stand behind a value. -/
def Ends (rest : List Char) : Prop :=
  ∀ c ∈ rest.head?, (c = ',' ∨ c = ']' ∨ c = '\x7d') ∨ isBlank c = true

theorem ends_nil : Ends [] :=
  nofun

theorem ends_cons {c : Char} (hc : c = ',' ∨ c = ']' ∨ c = '\x7d') (rest : List Char) :
    Ends (c :: rest) := by
  rintro _ ⟨⟩
  exact .inl hc

theorem Ends.blanks_append {blanks rest : List Char} (hblanks : Blanks blanks)
    (hrest : Ends rest) : Ends (blanks ++ rest) := by
  cases blanks with
  | nil => exact hrest
  | cons c blanks =>
    rintro _ ⟨⟩
    exact .inr (hblanks c List.mem_cons_self)

/-- All that a text behind a value may start with. -/
theorem Ends.cases_head {c : Char} {rest : List Char} (hrest : Ends (c :: rest)) :
    c ∈ [',', ']', '\x7d', ' ', '\n', '\t', '\r'] := by
  rcases hrest c rfl with (rfl | rfl | rfl) | hblank
  · decide
  · decide
  · decide
  · simp only [isBlank, Bool.or_eq_true, beq_iff_eq] at hblank
    rcases hblank with ((rfl | rfl) | rfl) | rfl <;> decide

theorem Ends.startsWithDigit {rest : List Char} (hrest : Ends rest) :
    startsWithDigit rest = false := by
  cases rest with
  | nil => rfl
  | cons c rest =>
    -- seven characters, each checked
    have hno : [',', ']', '\x7d', ' ', '\n', '\t', '\r'].all (fun c => !c.isDigit) = true := rfl
    have hdigit := List.all_eq_true.mp hno c hrest.cases_head
    rwa [Bool.not_eq_true'] at hdigit

/-- Behind an integer there is neither a point nor an exponent. -/
theorem Ends.afterWhole {rest : List Char} (hrest : Ends rest) (negative : Bool) (n : Nat) :
    afterWhole negative n rest = .ok (integral negative n, rest) := by
  cases rest with
  | nil => rfl
  | cons c rest =>
    have hc := hrest.cases_head
    simp only [List.mem_cons, List.not_mem_nil, or_false] at hc
    rcases hc with rfl | rfl | rfl | rfl | rfl | rfl | rfl <;> rfl

/-- Further digits never make a number smaller. -/
theorem le_ofDigitChars (cs : List Char) (n : Nat) : n ≤ Nat.ofDigitChars 10 cs n := by
  induction cs generalizing n with
  | nil => exact Nat.le_refl n
  | cons c cs ih =>
    rw [Nat.ofDigitChars_cons]
    have hrest := ih (10 * n + (c.toNat - '0'.toNat))
    omega

/-- Digits are taken as long as the number is within the limit. -/
theorem takeDigits_append {limit acc : Nat} {cs rest : List Char} (hcs : ∀ c ∈ cs, c.isDigit)
    (hlimit : Nat.ofDigitChars 10 cs acc ≤ limit) (hrest : startsWithDigit rest = false) :
    takeDigits limit acc (cs ++ rest) = (Nat.ofDigitChars 10 cs acc, rest) := by
  induction cs generalizing acc with
  | nil =>
    cases rest with
    | nil => rfl
    | cons c rest =>
      have hc : c.isDigit = false := hrest
      show takeDigits limit acc (c :: rest) = _
      rw [takeDigits, if_neg (by simp only [hc, Bool.false_eq_true, false_and, not_false_eq_true])]
      rfl
  | cons c cs ih =>
    rw [List.forall_mem_cons] at hcs
    rw [Nat.ofDigitChars_cons, Nat.mul_comm] at hlimit ⊢
    have hnext : acc * 10 + (c.toNat - '0'.toNat) ≤ limit :=
      Nat.le_trans (le_ofDigitChars cs _) hlimit
    rw [List.cons_append, takeDigits, if_pos ⟨hcs.1, hnext⟩]
    exact ih hcs.2 hlimit

/-- The digits of a number are read as the number. -/
theorem number_toDigits {n : Nat} {rest : List Char} (hn : n ≤ significandLimit)
    (hrest : Ends rest) (negative : Bool) :
    number negative (Nat.toDigits 10 n ++ rest) = .ok (integral negative n, rest) := by
  -- zero is written as one digit, which the reader does not take as the first of several
  rcases Nat.eq_zero_or_pos n with rfl | hpos
  · show (if startsWithDigit rest then _ else afterWhole negative 0 rest) = _
    rw [hrest.startsWithDigit, if_neg Bool.false_ne_true, hrest.afterWhole]
  · obtain ⟨c, cs, hcs, hc⟩ := Decimal.toDigits_eq_cons hpos
    have hdigits : ∀ d ∈ c :: cs, d.isDigit := fun d hd =>
      Nat.isDigit_of_mem_toDigits (by decide) (by decide) (hcs ▸ hd)
    -- no leading zero, so all the digits belong to one number
    have hvalue : Nat.ofDigitChars 10 (c :: cs) 0 = n := by
      rw [← hcs, Nat.ofDigitChars_ten_toDigits]
    have htake : takeDigits significandLimit 0 (c :: cs ++ rest) = _ :=
      takeDigits_append hdigits (by rwa [hvalue]) hrest.startsWithDigit
    rw [hvalue, List.cons_append] at htake
    rw [hcs, List.cons_append, number, if_neg hc, if_pos (hdigits c List.mem_cons_self), htake]
    show (if startsWithDigit rest then _ else afterWhole negative n rest) = _
    rw [hrest.startsWithDigit, if_neg Bool.false_ne_true, hrest.afterWhole]

theorem integral_of_nonneg {n : Int64} {m : Nat} (hm : n.toInt = m) :
    integral false m = .integer n := by
  have hlt : m < 0x8000000000000000 := by
    have hmax := Int64.toInt_lt n
    omega
  unfold integral
  rw [if_neg Bool.false_ne_true, if_pos hlt]
  show integer (Int64.ofInt m) = _
  rw [← hm, Int64.ofInt_toInt]

/-- The digits behind a minus sign are read as a negative number, down to the least integer. -/
theorem integral_of_neg {n : Int64} {m : Nat} (hm : n.toInt = -(m : Int)) (hpos : 0 < m) :
    integral true m = .integer n := by
  have hle : ¬ (m = 0 ∨ 0x8000000000000000 < m) := by
    have hmin := Int64.le_toInt n
    omega
  unfold integral
  rw [if_pos rfl, if_neg hle, ← hm, Int64.ofInt_toInt]

theorem valueWith_digit {c : Char} (hc : c.isDigit) (item? : Option (Reader Json))
    (rest : List Char) : valueWith item? (c :: rest) = number false (c :: rest) := by
  obtain ⟨n, hn, rfl⟩ := Decimal.exists_digitChar hc
  match n, hn with
  | 0, _ | 1, _ | 2, _ | 3, _ | 4, _ | 5, _ | 6, _ | 7, _ | 8, _ | 9, _ => rfl

/-- An integer is read as it is written. -/
theorem valueWith_integer (item? : Option (Reader Json)) (n : Int64) {rest : List Char}
    (hrest : Ends rest) :
    valueWith item? ((integer n).text ++ rest) = .ok (.integer n, rest) := by
  have hmin := Int64.le_toInt n
  have hmax := Int64.toInt_lt n
  show valueWith item? ((Decimal.text n).toList ++ rest) = _
  rcases Decimal.toList_text n with ⟨m, hm, htext⟩ | ⟨m, hpos, hm, htext⟩
  · -- an integer has at most 19 digits, less than where the reader turns to a fraction
    have hdigits := number_toDigits (n := m) (by unfold significandLimit; omega) hrest false
    obtain ⟨c, cs, hcs, hc⟩ := Decimal.exists_digit m
    rw [htext, hcs, List.cons_append, valueWith_digit hc, ← List.cons_append, ← hcs, hdigits,
      integral_of_nonneg hm]
  · have hdigits := number_toDigits (n := m) (by unfold significandLimit; omega) hrest true
    rw [htext]
    show number true (Nat.toDigits 10 m ++ rest) = _
    rw [hdigits, integral_of_neg hm hpos]

/-! ### Parts of containers -/

/-- The reader takes a text for a value, with whatever may follow. -/
def Reads (item : Reader Json) (cs : List Char) (j : Json) : Prop :=
  ∀ rest, Ends rest → ∃ left, item (cs ++ rest) = .ok (j, left) ∧ skipBlanks left = skipBlanks rest

/-- The text does not close a list, whatever is behind it. -/
def Opens (cs : List Char) : Prop :=
  ∀ rest, ∃ c ds, skipBlanks (cs ++ rest) = c :: ds ∧ c ≠ ']'

theorem opens_cons {c : Char} (hc : isBlank c = false ∧ c ≠ ']') (cs : List Char) :
    Opens (c :: cs) :=
  fun rest => ⟨c, cs ++ rest, skipBlanks_cons hc.1 _, hc.2⟩

theorem opens_digit {c : Char} (hc : c.isDigit) : isBlank c = false ∧ c ≠ ']' := by
  have hdigits : ∀ n < 10, isBlank n.digitChar = false ∧ n.digitChar ≠ ']' := by decide
  obtain ⟨n, hn, rfl⟩ := Decimal.exists_digitChar hc
  exact hdigits n hn

theorem opens_integer (n : Int64) : Opens (Decimal.text n).toList := by
  rcases Decimal.toList_text n with ⟨m, -, htext⟩ | ⟨m, -, -, htext⟩
  · obtain ⟨c, cs, hcs, hc⟩ := Decimal.exists_digit m
    rw [htext, hcs]
    exact opens_cons (opens_digit hc) cs
  · rw [htext]
    exact opens_cons (by decide) _

/-- The text of a value does not begin with a closing bracket. -/
theorem Spells.opens {cs : List Char} {j : Json} (h : Spells cs j) : Opens cs := by
  induction h with
  | null => exact opens_cons (by decide) _
  | bool b => cases b <;> exact opens_cons (by decide) _
  | integer n => exact opens_integer n
  | string hs =>
    obtain ⟨body, -, rfl⟩ := hs
    exact opens_cons (by decide) _
  | emptyArray | array | emptyObject | object => exact opens_cons (by decide) _
  | @blanks front cs back j hfront _ _ ih =>
    intro rest
    rw [List.append_assoc, List.append_assoc, skipBlanks_append hfront]
    exact ih (back ++ rest)

/-- There is a comma behind each part but the last one. -/
theorem length_le_count_comma (p : List Char) (ps : List (List Char)) (rest : List Char) :
    ps.length ≤ (skipBlanks ([','].intercalate (p :: ps) ++ rest)).count ',' := by
  -- a comma is no blank, so that none is lost with the blanks in front
  rw [count_skipBlanks (by decide), List.count_append]
  refine Nat.le_trans ?_ (Nat.le_add_right _ _)
  induction ps generalizing p with
  | nil => exact Nat.zero_le _
  | cons q ps ih =>
    have hrest := ih q
    rw [List.intercalate_cons_cons, List.count_append, List.count_append, List.count_singleton_self,
      List.length_cons]
    omega

/-- An intercalation begins with its first part. -/
theorem exists_eq_append (p : List Char) (ps : List (List Char)) (rest : List Char) :
    ∃ tail, [','].intercalate (p :: ps) ++ rest = p ++ tail := by
  cases ps with
  | nil => exact ⟨rest, by rw [List.intercalate_singleton]⟩
  | cons q ps =>
    refine ⟨',' :: ([','].intercalate (q :: ps) ++ rest), ?_⟩
    rw [List.intercalate_cons_cons, List.append_assoc, List.append_assoc]
    rfl

section Parts

variable {item : Reader Json}

/-- One more item behind a comma. -/
theorem items_comma {fuel : Nat} {j : Json} {c : Char} {cs ds left more : List Char}
    (hj : item cs = .ok (j, left)) (hleft : skipBlanks left = ',' :: more)
    (hmore : skipBlanks more = c :: ds) (hc : c ≠ ']') :
    items item (fuel + 1) cs = (items item fuel (c :: ds)).map fun r => (j :: r.1, r.2) := by
  rw [items, hj]
  simp only [bind, Except.bind, hleft, hmore]
  split
  · next hnil => cases hnil
  · next hbracket =>
    cases hbracket
    exact absurd rfl hc
  · cases items item fuel (c :: ds) <;> rfl

variable (hskip : ∀ cs, item (skipBlanks cs) = item cs)
include hskip

theorem items_skipBlanks (fuel : Nat) (cs : List Char) :
    items item (fuel + 1) (skipBlanks cs) = items item (fuel + 1) cs := by
  rw [items, items, hskip]

/-- The items of an array are read in front of the closing bracket. -/
theorem items_of_reads {p : Item} {ps : List Item}
    (hreads : ∀ q ∈ p :: ps, Reads item q.text q.value) (hopens : ∀ q ∈ p :: ps, Opens q.text)
    {fuel : Nat} (hfuel : ps.length < fuel) (rest : List Char) :
    items item fuel ([','].intercalate ((p :: ps).map Item.text) ++ ']' :: rest) =
      .ok ((p :: ps).map Item.value, rest) := by
  induction ps generalizing p fuel with
  | nil =>
    obtain ⟨fuel, rfl⟩ := Nat.exists_eq_add_one.mpr hfuel
    obtain ⟨left, hread, hleft⟩ :=
      hreads p List.mem_cons_self (']' :: rest) (ends_cons (by decide) rest)
    have hbracket : skipBlanks left = ']' :: rest := hleft
    rw [List.map_singleton, List.intercalate_singleton, items, hread]
    simp only [bind, Except.bind, hbracket]
    rfl
  | cons q ps ih =>
    obtain ⟨fuel, rfl⟩ := Nat.exists_eq_add_one.mpr (Nat.zero_lt_of_lt hfuel)
    have hlength : ps.length < fuel := Nat.lt_of_succ_lt_succ hfuel
    obtain ⟨fuel, rfl⟩ := Nat.exists_eq_add_one.mpr (Nat.zero_lt_of_lt hlength)
    rw [List.forall_mem_cons] at hreads hopens
    -- the first item leaves the comma and, behind it, the other items
    let more := [','].intercalate ((q :: ps).map Item.text) ++ ']' :: rest
    obtain ⟨left, hread, hleft⟩ := hreads.1 (',' :: more) (ends_cons (by decide) more)
    have htext : [','].intercalate ((p :: q :: ps).map Item.text) ++ ']' :: rest =
        p.text ++ ',' :: more := by
      show [','].intercalate (p.text :: (q :: ps).map Item.text) ++ ']' :: rest = _
      rw [List.map_cons, List.intercalate_cons_cons, List.append_assoc, List.append_assoc]
      rfl
    -- behind the comma the reader looks whether the array is closed; no item begins that way
    obtain ⟨tail, htail⟩ : ∃ tail, more = q.text ++ tail :=
      exists_eq_append q.text (ps.map Item.text) (']' :: rest)
    obtain ⟨c, ds, hmore, hc⟩ := hopens.2 q List.mem_cons_self tail
    rw [← htail] at hmore
    rw [htext, items_comma hread hleft hmore hc, ← hmore, items_skipBlanks hskip,
      ih hreads.2 hopens.2 hlength]
    rfl

/-- Behind its opening bracket an array is read up to the closing one. -/
theorem arrayBody_of_reads {p : Item} {ps : List Item}
    (hreads : ∀ q ∈ p :: ps, Reads item q.text q.value) (hopens : ∀ q ∈ p :: ps, Opens q.text)
    (rest : List Char) :
    arrayBody item ([','].intercalate ((p :: ps).map Item.text) ++ ']' :: rest) =
      .ok (.array ((p :: ps).map Item.value), rest) := by
  obtain ⟨tail, htail⟩ := exists_eq_append p.text (ps.map Item.text) (']' :: rest)
  have hcommas := length_le_count_comma p.text (ps.map Item.text) (']' :: rest)
  rw [List.map_cons]
  obtain ⟨c, ds, hc, hne⟩ := hopens p List.mem_cons_self tail
  rw [← htail] at hc
  rw [hc, List.length_map] at hcommas
  -- the commas are fuel enough
  have hfuel : ps.length < (c :: ds).length + 1 :=
    Nat.lt_succ_of_le (Nat.le_trans hcommas List.count_le_length)
  have hread := items_of_reads hskip hreads hopens hfuel rest
  rw [List.map_cons, ← items_skipBlanks hskip, hc] at hread
  rw [arrayBody, hc]
  split
  · next hnil => cases hnil
  · next hbracket =>
    cases hbracket
    exact absurd rfl hne
  · rw [hread]
    rfl

omit hskip

/-- A member of an object is read behind the quote with which its key begins. -/
theorem member_of_reads {m : Member} (hkey : SpellsKey m.keyText m.key)
    (hvalue : Reads item m.valueText m.value) {rest : List Char} (hrest : Ends rest) :
    ∃ ds left, skipBlanks (m.text ++ rest) = '"' :: ds ∧
      member item ds = .ok ((m.key, m.value), left) ∧ skipBlanks left = skipBlanks rest := by
  obtain ⟨front, middle, back, hfront, ⟨body, hbody, rfl⟩, hback, hkeyText⟩ := hkey
  obtain ⟨left, hread, hleft⟩ := hvalue rest hrest
  refine ⟨body ++ '"' :: (back ++ ':' :: (m.valueText ++ rest)), left, ?_, ?_, hleft⟩
  · rw [Member.text, hkeyText]
    simp only [List.append_assoc, skipBlanks_append hfront, List.cons_append, List.nil_append]
    exact skipBlanks_cons (by decide) _
  · -- blanks may stand between the key and the colon
    have hcolon :
        skipBlanks (back ++ ':' :: (m.valueText ++ rest)) = ':' :: (m.valueText ++ rest) := by
      rw [skipBlanks_append hback]
      rfl
    rw [member, stringBody_of_spells hbody]
    simp only [bind, Except.bind, hcolon, hread]
    rfl

/-- One more member behind a comma. -/
theorem members_comma {fuel : Nat} {m : String × Json} {cs ds left more : List Char}
    (hm : member item cs = .ok (m, left)) (hleft : skipBlanks left = ',' :: more)
    (hmore : skipBlanks more = '"' :: ds) :
    members item (fuel + 1) cs = (members item fuel ds).map fun r => (m :: r.1, r.2) := by
  rw [members, hm]
  simp only [bind, Except.bind, hleft, hmore]
  cases members item fuel ds <;> rfl

/-- The members of an object are read in front of the closing brace. -/
theorem members_of_reads {m : Member} {ms : List Member}
    (hkeys : ∀ m' ∈ m :: ms, SpellsKey m'.keyText m'.key)
    (hreads : ∀ m' ∈ m :: ms, Reads item m'.valueText m'.value) (rest : List Char) :
    ∃ ds,
      skipBlanks ([','].intercalate ((m :: ms).map Member.text) ++ '\x7d' :: rest) = '"' :: ds ∧
      ∀ fuel, ms.length < fuel →
        members item fuel ds = .ok ((m :: ms).map fun m => (m.key, m.value), rest) := by
  induction ms generalizing m with
  | nil =>
    obtain ⟨ds, left, hds, hread, hleft⟩ := member_of_reads (hkeys m List.mem_cons_self)
      (hreads m List.mem_cons_self) (ends_cons (by decide : '\x7d' = ',' ∨ _) rest)
    have hbrace : skipBlanks left = '\x7d' :: rest := hleft
    refine ⟨ds, ?_, fun fuel hfuel => ?_⟩
    · rw [List.map_singleton, List.intercalate_singleton]
      exact hds
    · obtain ⟨fuel, rfl⟩ := Nat.exists_eq_add_one.mpr hfuel
      rw [members, hread]
      simp only [bind, Except.bind, hbrace]
      rfl
  | cons q ms ih =>
    rw [List.forall_mem_cons] at hkeys hreads
    -- a member is read without its opening quote, which the loop takes off before it goes round
    obtain ⟨ds, hds, hrest⟩ := ih hkeys.2 hreads.2
    -- the first member leaves the comma and, behind it, the other members
    let more := [','].intercalate ((q :: ms).map Member.text) ++ '\x7d' :: rest
    have htext : [','].intercalate ((m :: q :: ms).map Member.text) ++ '\x7d' :: rest =
        m.text ++ ',' :: more := by
      show [','].intercalate (m.text :: q.text :: ms.map Member.text) ++ _ = _
      rw [List.intercalate_cons_cons, List.append_assoc, List.append_assoc]
      rfl
    obtain ⟨cs, left, hcs, hread, hleft⟩ :=
      member_of_reads hkeys.1 hreads.1 (ends_cons (.inl rfl) more)
    refine ⟨cs, by rw [htext, hcs], fun fuel hfuel => ?_⟩
    obtain ⟨fuel, rfl⟩ := Nat.exists_eq_add_one.mpr (Nat.zero_lt_of_lt hfuel)
    rw [members_comma hread hleft hds, hrest fuel (Nat.lt_of_succ_lt_succ hfuel)]
    rfl

/-- Behind its opening brace an object is read up to the closing one. -/
theorem objectBody_of_reads {m : Member} {ms : List Member}
    (hkeys : ∀ m' ∈ m :: ms, SpellsKey m'.keyText m'.key)
    (hreads : ∀ m' ∈ m :: ms, Reads item m'.valueText m'.value) (rest : List Char) :
    objectBody item ([','].intercalate ((m :: ms).map Member.text) ++ '\x7d' :: rest) =
      .ok (.object ((m :: ms).map fun m => (m.key, m.value)), rest) := by
  obtain ⟨ds, hds, hmembers⟩ := members_of_reads hkeys hreads rest
  have hcommas := length_le_count_comma m.text (ms.map Member.text) ('\x7d' :: rest)
  -- the quote that was taken off is no comma
  rw [← List.map_cons, hds, List.length_map, List.count_cons_of_ne (by decide)] at hcommas
  have hread := hmembers (ds.length + 1)
    (Nat.lt_succ_of_le (Nat.le_trans hcommas List.count_le_length))
  rw [objectBody, hds]
  simp only [bind, Except.bind, hread]
  rfl

end Parts

/-! ### Values -/

theorem value_eq_valueWith (n : Nat) : ∃ item?, value n = valueWith item? := by
  cases n <;> exact ⟨_, rfl⟩

/-- Blanks in front of a value do not matter. -/
theorem valueWith_skipBlanks (item? : Option (Reader Json)) (cs : List Char) :
    valueWith item? (skipBlanks cs) = valueWith item? cs := by
  unfold valueWith
  rw [skipBlanks_skipBlanks]

theorem value_skipBlanks (n : Nat) (cs : List Char) : value n (skipBlanks cs) = value n cs := by
  obtain ⟨item?, hn⟩ := value_eq_valueWith n
  rw [hn, valueWith_skipBlanks]

theorem value_blanks_append (n : Nat) {blanks : List Char} (hblanks : Blanks blanks)
    (cs : List Char) : value n (blanks ++ cs) = value n cs := by
  rw [← value_skipBlanks, skipBlanks_append hblanks, value_skipBlanks]

theorem Reads.of_eq {item : Reader Json} {cs : List Char} {j : Json}
    (h : ∀ rest, Ends rest → item (cs ++ rest) = .ok (j, rest)) : Reads item cs j :=
  fun rest hrest => ⟨rest, h rest hrest, rfl⟩

/-- A value is read, however it is written. -/
theorem reads_of_spells {n : Nat} {cs : List Char} {j : Json} (h : Spells cs j) (hj : Fits n j) :
    Reads (value n) cs j := by
  -- brackets use up the nesting, and without brackets it does not matter
  induction h generalizing n with
  | null =>
    obtain ⟨item?, hn⟩ := value_eq_valueWith n
    rw [hn]
    exact .of_eq fun rest _ => rfl
  | bool b =>
    obtain ⟨item?, hn⟩ := value_eq_valueWith n
    rw [hn]
    cases b <;> exact .of_eq fun rest _ => rfl
  | integer i =>
    obtain ⟨item?, hn⟩ := value_eq_valueWith n
    rw [hn]
    exact .of_eq fun rest hrest => valueWith_integer item? i hrest
  | @string cs s hs =>
    obtain ⟨body, hbody, rfl⟩ := hs
    obtain ⟨item?, hn⟩ := value_eq_valueWith n
    rw [hn]
    refine .of_eq fun rest _ => ?_
    show (stringBody (body ++ ['"'] ++ rest)).bind _ = _
    rw [List.append_assoc, List.singleton_append, stringBody_of_spells hbody]
    rfl
  | @emptyArray blanks hblanks =>
    cases hj
    refine .of_eq fun rest _ => ?_
    -- brackets with nothing but blanks between them need no reader for what is inside
    show arrayBody _ (blanks ++ [']'] ++ rest) = _
    rw [arrayBody, List.append_assoc, skipBlanks_append hblanks]
    rfl
  | @array items hne hspells ih =>
    obtain ⟨p, ps, rfl⟩ := List.exists_cons_of_ne_nil hne
    cases hj with
    | array hitems =>
      refine .of_eq fun rest _ => ?_
      show arrayBody (value _) ([','].intercalate ((p :: ps).map Item.text) ++ [']'] ++ rest) = _
      rw [List.append_assoc]
      exact arrayBody_of_reads (value_skipBlanks _)
        (fun q hq => ih q hq (hitems _ (List.mem_map_of_mem hq)))
        (fun q hq => (hspells q hq).opens) rest
  | @emptyObject blanks hblanks =>
    cases hj
    refine .of_eq fun rest _ => ?_
    show objectBody _ (blanks ++ ['\x7d'] ++ rest) = _
    rw [objectBody, List.append_assoc, skipBlanks_append hblanks]
    rfl
  | @object ms hne hkeys _ ih =>
    obtain ⟨m, ms, rfl⟩ := List.exists_cons_of_ne_nil hne
    cases hj with
    | object _ hmembers =>
      refine .of_eq fun rest _ => ?_
      show objectBody (value _)
        ([','].intercalate ((m :: ms).map Member.text) ++ ['\x7d'] ++ rest) = _
      rw [List.append_assoc]
      exact objectBody_of_reads hkeys
        (fun q hq => ih q hq (hmembers (q.key, q.value)
          (List.mem_map_of_mem (f := fun m : Member => (m.key, m.value)) hq))) rest
  | @blanks front cs back j hfront _ hback ih =>
    intro rest hrest
    -- the blanks behind it are part of what may follow the value inside
    obtain ⟨left, hread, hleft⟩ := ih hj (back ++ rest) (hrest.blanks_append hback)
    refine ⟨left, ?_, hleft.trans (skipBlanks_append hback rest)⟩
    rw [List.append_assoc, List.append_assoc, value_blanks_append n hfront, hread]

/-- **What is standard is read.** -/
theorem parse_of_spells {cs : List Char} {j : Json} (h : Spells cs j) (hj : Fits openLimit j) :
    parse cs = .ok j := by
  obtain ⟨left, hread, hleft⟩ := reads_of_spells h hj [] ends_nil
  -- at the end of the text nothing but blanks may be left
  have hnothing : skipBlanks left = [] := hleft
  rw [List.append_nil] at hread
  rw [parse, hread]
  simp only [bind, Except.bind, hnothing]
  rfl

/-! ### Writing -/

theorem spellsHex_control :
    ∀ n < 32, SpellsHex ['0', '0', hexDigit (n / 16), hexDigit (n % 16)] n := by
  unfold SpellsHex
  decide

/-- A character is written as one may write it. -/
theorem spells_escapeChar (c : Char) : SpellsChar (escapeChar c) c := by
  unfold escapeChar
  split_ifs with hquote hslash hb hf hn hr ht hcontrol
  -- the quote, the backslash and the five control characters with a letter of their own
  iterate 7 exact .short (by subst c; decide)
  · exact .hex (spellsHex_control c.toNat hcontrol)
  · exact .itself (Nat.le_of_not_lt hcontrol) hquote hslash

theorem spells_flatMap (cs : List Char) : SpellsChars (cs.flatMap escapeChar) cs := by
  induction cs with
  | nil => exact .nil
  | cons c cs ih =>
    rw [List.flatMap_cons]
    exact .cons (spells_escapeChar c) ih

theorem spells_stringText (s : String) : SpellsString (stringText s) s :=
  ⟨s.toList.flatMap escapeChar, spells_flatMap s.toList, rfl⟩

theorem texts_eq_map (js : List Json) : texts js = js.map text := by
  induction js with
  | nil => rfl
  | cons j js ih => rw [texts, ih, List.map_cons]

theorem memberTexts_eq_map (ms : List (String × Json)) :
    memberTexts ms = ms.map fun m => stringText m.1 ++ ':' :: m.2.text := by
  induction ms with
  | nil => rfl
  | cons m ms ih => rw [memberTexts, ih, List.map_cons]

/-- What is written is standard. -/
theorem spells_text {n : Nat} {j : Json} (hj : Fits n j) : Spells j.text j := by
  have hnothing : Blanks [] := List.forall_mem_nil _
  induction hj with
  | null => exact .null
  | bool _ b =>
    cases b with
    | true => exact .bool true
    | false => exact .bool false
  | integer _ i => exact .integer i
  | string _ s => exact .string (spells_stringText s)
  | @array n js _ ih =>
    rw [text, texts_eq_map]
    by_cases hne : js = []
    · subst hne
      exact .emptyArray hnothing
    · -- an array is written from the texts of its elements, without blanks
      let items : List Item := js.map fun j => ⟨j.text, j⟩
      have hitems : items ≠ [] := fun h => hne (List.map_eq_nil_iff.mp h)
      have harray := Spells.array hitems (List.forall_mem_map.mpr ih)
      simpa only [items, List.map_map, Function.comp_def, List.map_id'] using harray
  | @object n ms _ _ ih =>
    rw [text, memberTexts_eq_map]
    by_cases hne : ms = []
    · subst hne
      exact .emptyObject hnothing
    · let members : List Member := ms.map fun m => ⟨stringText m.1, m.1, m.2.text, m.2⟩
      have hmembers : members ≠ [] := fun h => hne (List.map_eq_nil_iff.mp h)
      have hkey (m : String × Json) : SpellsKey (stringText m.1) m.1 :=
        ⟨[], _, [], hnothing, spells_stringText m.1, hnothing, (List.append_nil _).symm⟩
      have hobject := Spells.object hmembers
        (List.forall_mem_map.mpr fun m _ => hkey m) (List.forall_mem_map.mpr ih)
      simpa only [members, List.map_map, Function.comp_def, List.map_id', Member.text] using hobject

/-! ### The codec of the program -/

/-- The codec of the program writes standard JSON. -/
theorem compact_writesStandard : Codec.WritesStandard := by
  intro n j hj
  show Spells (String.ofList j.text).toList j
  rw [String.toList_ofList]
  exact spells_text hj

/-- The codec of the program reads standard JSON with less than 128 brackets open at once. -/
theorem compact_readsStandard : Codec.ReadsStandard (openLimit + 1) := by
  intro t j ht n hn hj
  -- one bracket less is open than the limit
  have hparse : parse t.toList = .ok j :=
    parse_of_spells ht (hj.mono (Nat.le_of_lt_succ hn))
  show (parse t.toList).mapError _ = _
  rw [hparse]
  rfl

end ModalScript.Json
