/-
The number that a text stands for.

Every text begins with a numeral: blanks, a sign and decimal digits, each of which may be missing.
It is the longest one that is read (`Decimal.Numeral.Leads`).  The product and the sum saturate at
each of its digits, and since a further digit never makes a number smaller, this comes to the same
as to saturate once, at the number that all of the digits write (`leadingFrom_append`).

The sign is applied last.  So it is the size that saturates, and the greatest size is one less than
that of the least integer, which is out of reach: it is not read as it is written, and neither it
nor what is below it is what a text stands for.

Main result: `Value.toNumber_of_leads`.
-/
import Mathlib.Data.Nat.Find
import ModalScript.Proofs.Decimal.Numeral
import ModalScript.Value.Conversion

namespace ModalScript

namespace Decimal

variable {c : Char} {blanks digits rest cs : List Char} {n : Nat}

/-! ### Digit by digit -/

/-- In base ten the digits are the decimal ones. -/
theorem digit?_ten (c : Char) :
    digit? 10 c = if c.isDigit = true then some (c.toNat - '0'.toNat) else none := by
  have hzero : '0'.toNat = 48 := rfl
  have hnine : '9'.toNat = 57 := rfl
  simp only [digit?, Char.isDigit_iff_toNat, Bool.and_eq_true, decide_eq_true_eq, hzero, hnine]
  split
  · next hdigit => exact Option.filter_some_pos (by simp; omega)
  · next hdigit =>
    -- letters are digits only above ten
    split
    · exact Option.filter_some_neg (by simp; omega)
    · split
      · exact Option.filter_some_neg (by simp; omega)
      · rfl

/-- A digit is no blank and no sign. -/
theorem isBlank_of_isDigit (hc : c.isDigit = true) :
    Text.isBlank c = false ∧ c ≠ '-' ∧ c ≠ '+' := by
  obtain ⟨n, hn, rfl⟩ := exists_digitChar hc
  revert n
  decide

/-- A number that does not fit is taken for the nearest one that does. -/
theorem toInt_saturate (v : Int) : (saturate v).toInt = max (-2 ^ 63) (min v (2 ^ 63 - 1)) := by
  unfold saturate
  rw [Int64.toInt_minValue, Int64.toInt_maxValue]
  split
  · next hlow =>
    rw [Int64.toInt_minValue]
    omega
  · split
    · next hhigh =>
      rw [Int64.toInt_maxValue]
      omega
    · next hlow hhigh =>
      rw [Int64.toInt_ofInt_of_le (by omega) (by omega)]
      omega

/-- A number that has saturated stays so with a further digit behind it. -/
theorem appendDigit_clamp (n d : Nat) : appendDigit (clamp n) d = clamp (10 * n + d) := by
  apply Int64.toInt_inj.mp
  unfold appendDigit
  rw [toInt_saturate, toInt_saturate, toInt_clamp, toInt_clamp]
  omega

/-- To saturate at each digit comes to the same as to saturate at the end. -/
theorem leadingFrom_append (hdigits : digits.all Char.isDigit = true)
    (hrest : ∀ c ∈ rest.head?, c.isDigit = false) :
    leadingFrom (clamp n) (digits ++ rest) = clamp (Nat.ofDigitChars 10 digits n) := by
  induction digits generalizing n with
  | nil =>
    cases rest with
    | nil => rfl
    | cons c rest =>
      have hc : digit? 10 c = none := by
        rw [digit?_ten, hrest c rfl, if_neg Bool.false_ne_true]
      show leadingFrom (clamp n) (c :: rest) = clamp n
      rw [leadingFrom, hc]
  | cons c digits ih =>
    rw [List.all_cons, Bool.and_eq_true] at hdigits
    -- what has been read so far is a natural number, clamped
    rw [List.cons_append, leadingFrom, digit?_ten, if_pos hdigits.1, Nat.ofDigitChars_cons]
    show leadingFrom (appendDigit (clamp n) _) (digits ++ rest) = _
    rw [appendDigit_clamp, ih hdigits.2]

/-! ### Numerals -/

/-- Blanks, a sign and decimal digits, as they stand at the start of a text. -/
structure Numeral where
  blanks : List Char
  sign : Sign
  digits : List Char
  blank : blanks.all Text.isBlank = true := by decide
  digit : digits.all Char.isDigit = true := by decide

namespace Numeral

variable {p : Numeral}

/-- A numeral as it is written. -/
def chars (p : Numeral) : List Char :=
  p.blanks ++ (p.sign.chars ++ p.digits)

/-- The size of the integer that a numeral writes; without digits it is zero. -/
def size (p : Numeral) : Nat :=
  Nat.ofDigitChars 10 p.digits 0

/-- The integer that a numeral writes. -/
def value (p : Numeral) : Int :=
  p.sign.apply p.size

/-- A numeral is the longest one that a text begins with. -/
structure Leads (p : Numeral) (cs : List Char) : Prop where
  begins : p.chars <+: cs
  longest : ∀ q : Numeral, q.chars <+: cs → q.chars.length ≤ p.chars.length

/-- Every text begins with a numeral, be it empty. -/
theorem exists_leads (cs : List Char) : ∃ p : Numeral, p.Leads cs := by
  classical
  have hempty : ∃ p : Numeral, p.chars <+: cs ∧ p.chars.length = 0 :=
    ⟨⟨[], .absent, [], rfl, rfl⟩, List.nil_prefix, rfl⟩
  -- among the numerals that the text begins with there is one of greatest length
  obtain ⟨p, hp, hlength⟩ := Nat.findGreatest_spec
    (P := fun k => ∃ p : Numeral, p.chars <+: cs ∧ p.chars.length = k) (Nat.zero_le cs.length)
    hempty
  refine ⟨p, hp, fun q hq => ?_⟩
  rw [hlength]
  exact Nat.le_findGreatest hq.length_le ⟨q, hq, rfl⟩

/-- The character behind the longest numeral makes no longer one. -/
theorem Leads.chars_ne (h : p.Leads (p.chars ++ c :: rest)) (q : Numeral) :
    q.chars ≠ p.chars ++ [c] := by
  intro hq
  have hbegins : q.chars <+: p.chars ++ c :: rest := by
    rw [hq]
    exact (List.prefix_append_right_inj p.chars).mpr ⟨rest, rfl⟩
  -- such a numeral would be longer by the character
  have hlength := h.longest q hbegins
  rw [hq, List.length_append, List.length_singleton] at hlength
  omega

theorem Leads.not_digit (h : p.Leads (p.chars ++ rest)) :
    ∀ c ∈ rest.head?, c.isDigit = false := by
  intro c hc
  obtain ⟨rest, rfl⟩ := List.head?_eq_some_iff.mp hc
  apply Bool.eq_false_iff.mpr
  intro hdigit
  apply h.chars_ne { p with
    digits := p.digits ++ [c]
    digit := by simp [p.digit, hdigit] }
  simp [chars]

/-- Where a text begins with no sign and no digit, what is behind the blanks is neither. -/
theorem Leads.not_blank (h : p.Leads (p.chars ++ c :: rest)) (hsign : p.sign = .absent)
    (hdigits : p.digits = []) : Text.isBlank c = false ∧ c ≠ '-' ∧ c ≠ '+' := by
  have hchars : p.chars = p.blanks := by
    rw [chars, hsign, hdigits]
    exact List.append_nil p.blanks
  refine ⟨?_, ?_, ?_⟩
  · apply Bool.eq_false_iff.mpr
    intro hblank
    apply h.chars_ne ⟨p.blanks ++ [c], .absent, [], by simp [p.blank, hblank], rfl⟩
    rw [hchars]
    exact List.append_nil _
  · rintro rfl
    apply h.chars_ne ⟨p.blanks, .minus, [], p.blank, rfl⟩
    rw [hchars]
    rfl
  · rintro rfl
    apply h.chars_ne ⟨p.blanks, .plus, [], p.blank, rfl⟩
    rw [hchars]
    rfl

/-- Where the longest numeral has no sign, none stands where one could. -/
theorem Leads.head_of_absent (h : p.Leads (p.chars ++ rest)) (hsign : p.sign = .absent) :
    ∀ c ∈ (p.digits ++ rest).head?, Text.isBlank c = false ∧ c ≠ '-' ∧ c ≠ '+' := by
  intro c hc
  cases hdigits : p.digits with
  | nil =>
    rw [hdigits] at hc
    obtain ⟨rest, rfl⟩ := List.head?_eq_some_iff.mp hc
    exact h.not_blank hsign hdigits
  | cons d digits =>
    rw [hdigits] at hc
    obtain rfl : d = c := Option.some.inj hc
    exact isBlank_of_isDigit (List.all_eq_true.mp p.digit d (by simp [hdigits]))

/-- A numeral is made of blanks, signs and digits. -/
theorem mem_chars (hc : c ∈ p.chars) :
    Text.isBlank c = true ∨ c = '+' ∨ c = '-' ∨ c.isDigit = true := by
  rw [chars, List.mem_append, List.mem_append] at hc
  rcases hc with hc | hc | hc
  · exact .inl (List.all_eq_true.mp p.blank c hc)
  · cases hsign : p.sign with
    | absent =>
      rw [hsign] at hc
      cases hc
    | plus =>
      rw [hsign] at hc
      exact .inr (.inl (List.mem_singleton.mp hc))
    | minus =>
      rw [hsign] at hc
      exact .inr (.inr (.inl (List.mem_singleton.mp hc)))
  · exact .inr (.inr (.inr (List.all_eq_true.mp p.digit c hc)))

/-- A numeral ends at a character of another kind. -/
theorem leads_append (p : Numeral)
    (hc : ¬(Text.isBlank c = true ∨ c = '+' ∨ c = '-' ∨ c.isDigit = true)) (rest : List Char) :
    p.Leads (p.chars ++ c :: rest) := by
  refine ⟨List.prefix_append _ _, fun q hq => ?_⟩
  -- a longer one would have the character in it
  by_contra hlength
  apply hc
  apply mem_chars (p := q)
  have hbegins : p.chars ++ [c] <+: p.chars ++ c :: rest :=
    (List.prefix_append_right_inj p.chars).mpr ⟨rest, rfl⟩
  have hlonger : p.chars ++ [c] <+: q.chars := by
    apply List.prefix_of_prefix_length_le hbegins hq
    rw [List.length_append, List.length_singleton]
    omega
  exact hlonger.subset (by simp)

/-- The size that is read is within range, and so is the integer except for the least one. -/
theorem apply_min_iff (p : Numeral) :
    p.sign.apply (min p.size (2 ^ 63 - 1)) = max (-2 ^ 63) (min p.value (2 ^ 63 - 1)) ↔
      -2 ^ 63 < p.value := by
  unfold value
  cases p.sign with
  | absent | plus | minus =>
    -- the size stops one below that of the least integer
    simp only [Sign.apply]
    omega

end Numeral

/-! ### What is read -/

theorem trimStart_append (hblanks : blanks.all Text.isBlank = true)
    (hcs : ∀ c ∈ cs.head?, Text.isBlank c = false) : Text.trimStart (blanks ++ cs) = cs := by
  unfold Text.trimStart
  rw [List.dropWhile_append_of_pos (List.all_eq_true.mp hblanks)]
  cases cs with
  | nil => rfl
  | cons c cs => exact List.dropWhile_cons_of_neg (by simp [hcs c rfl])

/-- The sign of a size that has saturated can be turned. -/
theorem toInt_neg_clamp (n : Nat) : (-clamp n).toInt = -min (n : Int) (2 ^ 63 - 1) := by
  have hsize := toInt_clamp n
  rw [Int64.toInt_neg, hsize, Int.bmod_eq_of_le]
  · omega
  · omega

/-- The longest numeral is read, with the greatest size for all beyond it. -/
theorem Numeral.Leads.toInt_leading {p : Numeral} (h : p.Leads cs) :
    (leading cs).toInt = p.sign.apply (min p.size (2 ^ 63 - 1)) := by
  obtain ⟨rest, rfl⟩ := h.begins
  have hread : leadingFrom 0 (p.digits ++ rest) = clamp p.size :=
    leadingFrom_append (n := 0) p.digit h.not_digit
  unfold leading
  rw [chars, List.append_assoc, List.append_assoc]
  cases hsign : p.sign with
  | absent =>
    have hhead := h.head_of_absent hsign
    rw [Sign.chars, List.nil_append, trimStart_append p.blank fun c hc => (hhead c hc).1]
    split
    · next hcs => exact absurd rfl (hhead '-' (by simp [hcs])).2.1
    · next hcs => exact absurd rfl (hhead '+' (by simp [hcs])).2.2
    · rw [hread, toInt_clamp, Sign.apply]
      omega
  | plus =>
    rw [trimStart_append p.blank fun c hc => by cases hc; rfl]
    show (leadingFrom 0 (p.digits ++ rest)).toInt = _
    rw [hread, toInt_clamp, Sign.apply]
    omega
  | minus =>
    rw [trimStart_append p.blank fun c hc => by cases hc; rfl]
    show (-leadingFrom 0 (p.digits ++ rest)).toInt = _
    rw [hread, toInt_neg_clamp, Sign.apply]
    omega

/-- The text of an integer is a numeral. -/
theorem exists_leads_text (n : Int64) :
    ∃ p : Numeral, p.Leads (text n).toList ∧ p.value = n.toInt := by
  -- a numeral that is the whole text is the longest one in it
  have hleads (p : Numeral) (hp : p.chars = (text n).toList) : p.Leads (text n).toList := by
    refine ⟨hp ▸ List.prefix_rfl, fun q hq => ?_⟩
    rw [hp]
    exact hq.length_le
  have hdigits (m : Nat) : (Nat.toDigits 10 m).all Char.isDigit = true :=
    List.all_eq_true.mpr fun c hc => Nat.isDigit_of_mem_toDigits (by decide) (by decide) hc
  rcases toList_text n with ⟨m, hm, htext⟩ | ⟨m, -, hm, htext⟩
  · refine ⟨⟨[], .absent, Nat.toDigits 10 m, rfl, hdigits m⟩, hleads _ htext.symm, ?_⟩
    show ((Nat.ofDigitChars 10 (Nat.toDigits 10 m) 0 : Nat) : Int) = _
    rw [Nat.ofDigitChars_ten_toDigits, hm]
  · refine ⟨⟨[], .minus, Nat.toDigits 10 m, rfl, hdigits m⟩, hleads _ htext.symm, ?_⟩
    show -((Nat.ofDigitChars 10 (Nat.toDigits 10 m) 0 : Nat) : Int) = _
    rw [Nat.ofDigitChars_ten_toDigits, hm]

end Decimal

namespace Value

open Decimal (Numeral)

/-- **Texts as numbers.**  Every text begins with a longest numeral, and as a number it is the
integer that this numeral writes, or the nearest one of 64 bits, if and only if the integer is
greater than the least one of 64 bits.  An integer is got back from its text if and only if it is
not the least one. -/
theorem toNumber_of_leads (s : String) (n : Int64) :
    (∃ p : Numeral, p.Leads s.toList) ∧
    (∀ p : Numeral, p.Leads s.toList → ∃ m, (string s).toNumber = .ok m ∧
      (m.toInt = max (-2 ^ 63) (min p.value (2 ^ 63 - 1)) ↔ -2 ^ 63 < p.value)) ∧
    (((integer n).toText.bind fun t => (string t).toNumber) = .ok n ↔ n ≠ Int64.minValue) := by
  refine ⟨Numeral.exists_leads s.toList, fun p hp => ?_, ?_⟩
  · refine ⟨Decimal.leading s.toList, rfl, ?_⟩
    rw [hp.toInt_leading]
    exact p.apply_min_iff
  · obtain ⟨p, hp, hvalue⟩ := Decimal.exists_leads_text n
    have hmin := Int64.le_toInt n
    have hmax := Int64.toInt_lt n
    show Except.ok (Decimal.leading (Decimal.text n).toList) = _ ↔ _
    rw [Except.ok.injEq, ← Int64.toInt_inj, ne_eq, ← Int64.toInt_inj, Int64.toInt_minValue,
      hp.toInt_leading]
    -- the text of an integer is read as the integer unless that is the least one
    have hiff := p.apply_min_iff
    rw [hvalue] at hiff
    omega

/-- What is behind a numeral is not looked at, and zeros in front of its digits make no
difference. -/
theorem toNumber_of_leads_of_junk :
    ∃ p : Numeral, p.Leads "\u00a0\t-0042x7".toList ∧ p.value = -42 ∧
      (string "\u00a0\t-0042x7").toNumber = .ok (-42) ∧ -2 ^ 63 < p.value ∧
      (-42 : Int64).toInt = max (-2 ^ 63) (min p.value (2 ^ 63 - 1)) := by
  let p : Numeral := { blanks := ['\u00a0', '\t'], sign := .minus, digits := ['0', '0', '4', '2'] }
  have hp : p.Leads "\u00a0\t-0042x7".toList := Numeral.leads_append p (by decide) ['7']
  obtain ⟨n, hn, hiff⟩ := (toNumber_of_leads "\u00a0\t-0042x7" (-42)).2.1 p hp
  have hvalue : p.value = -42 := by decide
  have hnumber : (string "\u00a0\t-0042x7").toNumber = .ok (-42) := by rfl
  obtain rfl : -42 = n := Except.ok.inj (hnumber.symm.trans hn)
  refine ⟨p, hp, hvalue, hnumber, ?_, hiff.mpr ?_⟩
  · rw [hvalue]
    decide
  · rw [hvalue]
    decide

/-- The least integer is written, and the text is read as the next greater one. -/
theorem toNumber_ne_of_least :
    ∃ p : Numeral, p.Leads "-9223372036854775808".toList ∧ p.value = -2 ^ 63 ∧
      (integer Int64.minValue).toText = .ok "-9223372036854775808" ∧
      (string "-9223372036854775808").toNumber = .ok (-9223372036854775807) ∧
      (-9223372036854775807 : Int64).toInt ≠ max (-2 ^ 63) (min p.value (2 ^ 63 - 1)) ∧
      (-9223372036854775807 : Int64) ≠ Int64.minValue := by
  have htext : Decimal.text Int64.minValue = "-9223372036854775808" := by decide +kernel
  obtain ⟨p, hp, hvalue⟩ := Decimal.exists_leads_text Int64.minValue
  rw [htext] at hp
  refine ⟨p, hp, hvalue, congrArg Except.ok htext, by decide +kernel, ?_, by decide⟩
  rw [hvalue]
  decide

end Value

end ModalScript
