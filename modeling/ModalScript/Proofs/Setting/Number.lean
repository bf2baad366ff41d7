/-
The number that is typed for a setting.

What a typed text means is said by a grammar: digits in a base (`Positional`), a sign in front of
them (`Signed`), the mark of the base in front of that (`Based`), and in front of everything a
minus that turns the sign of all that follows (`SettingNumber.Means`).  An integer behind the mark
of the base is read if it fits in 64 bits, and refused otherwise (`magnitude?_of_based`).

The minus in front is taken away before that, and the sign turned afterwards.  The integers of 64
bits are not as many below zero as above, and so two integers go wrong behind a minus: the least
one, whose size does not fit, is refused, and its negation does fit once the sign is turned, which
overflows (`SettingNumber.Overflows`).

Main result: `SettingNumber.parse?_of_means`.
-/
import Mathlib.Data.List.Induction
import ModalScript.Proofs.Decimal.Numeral
import ModalScript.Setting.Catalogue
import ModalScript.Setting.Store

namespace ModalScript

namespace Decimal

variable {radix acc n : Nat} {c : Char} {cs : List Char} {v : Int}

/-! ### Digits -/

/-- The digits of a number in a base, of which there is at least one. -/
inductive Positional (radix : Nat) : List Char → Nat → Prop
  | one {c : Char} {d : Nat} : digit? radix c = some d → Positional radix [c] d
  | more {cs : List Char} {n : Nat} {c : Char} {d : Nat} : Positional radix cs n →
      digit? radix c = some d → Positional radix (cs ++ [c]) (n * radix + d)

/-- The last digit is read behind the others. -/
theorem continued?_concat (radix acc : Nat) (cs : List Char) (c : Char) :
    continued? radix acc (cs ++ [c]) =
      (continued? radix acc cs).bind fun n => (digit? radix c).map fun d => n * radix + d := by
  induction cs generalizing acc with
  | nil =>
    show continued? radix acc [c] = (digit? radix c).map fun d => acc * radix + d
    rw [continued?]
    cases digit? radix c with
    | none => rfl
    | some d => rfl
  | cons b cs ih =>
    rw [List.cons_append, continued?, continued?]
    cases digit? radix b with
    | none => rfl
    | some d => exact ih (acc * radix + d)

/-- The digits of a number are read as the number, and nothing else is. -/
theorem natural?_eq_some_iff : natural? radix cs = some n ↔ Positional radix cs n := by
  -- the reader goes on from the first digit, and a number is its last digit and those before it
  constructor
  · induction cs using List.reverseRecOn generalizing n with
    | nil =>
      intro h
      cases h
    | append_singleton cs c ih =>
      intro h
      rw [natural?, if_neg (by simp), continued?_concat] at h
      obtain ⟨m, hm, hc⟩ := Option.bind_eq_some_iff.mp h
      obtain ⟨d, hd, rfl⟩ := Option.map_eq_some_iff.mp hc
      by_cases hcs : cs = []
      · subst hcs
        cases hm
        rw [Nat.zero_mul, Nat.zero_add]
        exact .one hd
      · exact .more (ih (by rwa [natural?, if_neg (by simpa using hcs)])) hd
  · intro h
    induction h with
    | @one c d hd =>
      show continued? radix 0 [c] = some d
      rw [continued?, hd]
      show some (0 * radix + d) = some d
      rw [Nat.zero_mul, Nat.zero_add]
    | @more cs n c d hcs hd ih =>
      have hread : continued? radix 0 cs = some n := by
        unfold natural? at ih
        split at ih
        · cases ih
        · exact ih
      rw [natural?, if_neg (by simp), continued?_concat, hread, hd]
      rfl

theorem Positional.head_ne_none (h : Positional radix (c :: cs) n) : digit? radix c ≠ none := by
  intro hc
  have hread : continued? radix 0 (c :: cs) = some n := natural?_eq_some_iff.mpr h
  rw [continued?, hc] at hread
  cases hread

theorem positional_toDigits (m : Nat) : Positional 10 (Nat.toDigits 10 m) m := by
  have hdigit : ∀ d < 10, digit? 10 d.digitChar = some d := by decide
  induction m using Nat.strongRecOn with
  | ind m ih =>
    rw [Nat.toDigits_eq_if (by decide)]
    split
    · next hm => exact .one (hdigit m hm)
    · next hm =>
      have hmore := (ih (m / 10) (by omega)).more (hdigit (m % 10) (by omega))
      rwa [Nat.mul_comm, Nat.div_add_mod] at hmore

/-! ### Signs and bases -/

/-- Digits with a sign in front of them, if any, and the integer that they write. -/
def Signed (radix : Nat) (cs : List Char) (v : Int) : Prop :=
  ∃ (sign : Sign) (digits : List Char) (n : Nat),
    Positional radix digits n ∧ cs = sign.chars ++ digits ∧ v = sign.apply n

theorem Positional.signed (h : Positional radix cs n) : Signed radix cs n :=
  ⟨.absent, cs, n, h, rfl, rfl⟩

/-- An integer is read if it fits in 64 bits. -/
theorem read?_of_signed (h : Signed radix cs v) : read? radix cs = narrow? v := by
  obtain ⟨sign, digits, n, hdigits, rfl, rfl⟩ := h
  have hread := natural?_eq_some_iff.mpr hdigits
  cases sign with
  | absent =>
    show read? radix digits = narrow? n
    unfold read?
    -- a sign is no digit
    split
    · exact absurd rfl hdigits.head_ne_none
    · exact absurd rfl hdigits.head_ne_none
    · rw [hread, Option.bind_some]
  | plus =>
    show (natural? radix digits).bind _ = narrow? n
    rw [hread, Option.bind_some]
  | minus =>
    show (natural? radix digits).bind _ = narrow? (-n)
    rw [hread, Option.bind_some]

/-- What is read is digits with a sign in front of them, if any. -/
theorem exists_signed_of_read? {n : Int64} (h : read? radix cs = some n) :
    ∃ v, Signed radix cs v := by
  unfold read? at h
  split at h
  · next digits =>
    obtain ⟨m, hm, -⟩ := Option.bind_eq_some_iff.mp h
    exact ⟨_, .minus, digits, m, natural?_eq_some_iff.mp hm, rfl, rfl⟩
  · next digits =>
    obtain ⟨m, hm, -⟩ := Option.bind_eq_some_iff.mp h
    exact ⟨_, .plus, digits, m, natural?_eq_some_iff.mp hm, rfl, rfl⟩
  · obtain ⟨m, hm, -⟩ := Option.bind_eq_some_iff.mp h
    exact ⟨m, (natural?_eq_some_iff.mp hm).signed⟩

/-- There is only one integer whose sign cannot be turned. -/
theorem toInt_neg_eq_iff (n : Int64) : (-n).toInt = -n.toInt ↔ n ≠ Int64.minValue := by
  have hmin := Int64.le_toInt n
  have hmax := Int64.toInt_lt n
  rw [ne_eq, ← Int64.toInt_inj, Int64.toInt_minValue, Int64.toInt_neg, Int.bmod_def]
  omega

end Decimal

namespace SettingNumber

open Decimal (Positional Signed narrow? narrow?_eq_some_iff toInt_neg_eq_iff)

variable {cs : List Char} {v : Int} {s : String}

/-- An integer behind the mark of its base: `0x` for 16 and a further zero for 8. -/
inductive Based : List Char → Int → Prop
  | hex {x : Char} {cs : List Char} {v : Int} :
      x = 'x' ∨ x = 'X' → Signed 16 cs v → Based ('0' :: x :: cs) v
  | octal {c : Char} {cs : List Char} {v : Int} : Signed 8 (c :: cs) v → Based ('0' :: c :: cs) v
  | decimal {cs : List Char} {v : Int} :
      (∀ c rest, cs ≠ '0' :: c :: rest) → Signed 10 cs v → Based cs v

/-- The integer that a text means; a minus in front of it belongs to all that follows. -/
inductive Means : List Char → Int → Prop
  | minus {cs : List Char} {v : Int} : Based cs v → Means ('-' :: cs) (-v)
  | plain {cs : List Char} {v : Int} : cs.head? ≠ some '-' → Based cs v → Means cs v

/-- The number behind a minus is one whose sign cannot be turned in 64 bits. -/
def Overflows (s : String) : Prop :=
  ∃ cs n, s.toList = '-' :: cs ∧ magnitude? cs = some n ∧ (-n).toInt ≠ -n.toInt

/-! ### Reading behind the minus -/

/-- The mark of base 16 is no octal digit. -/
theorem not_signed_mark {x : Char} (hx : x = 'x' ∨ x = 'X') : ¬Signed 8 (x :: cs) v := by
  rintro ⟨sign, digits, n, hdigits, hcs, -⟩
  cases sign with
  | absent =>
    obtain rfl : x :: cs = digits := hcs
    rcases hx with rfl | rfl
    · exact hdigits.head_ne_none rfl
    · exact hdigits.head_ne_none rfl
  | plus =>
    obtain rfl : x = '+' := (List.cons.inj hcs).1
    exact absurd hx (by decide)
  | minus =>
    obtain rfl : x = '-' := (List.cons.inj hcs).1
    exact absurd hx (by decide)

/-- Behind the minus an integer is read if it fits in 64 bits. -/
theorem magnitude?_of_based (h : Based cs v) : magnitude? cs = narrow? v := by
  cases h with
  | hex hx h =>
    rw [← Decimal.read?_of_signed h]
    rcases hx with rfl | rfl
    · rfl
    · rfl
  | octal h =>
    rw [← Decimal.read?_of_signed h]
    unfold magnitude?
    -- the marks are tried in the order of the definition, and only one of them fits
    split
    · next hcs =>
      obtain ⟨rfl, rfl⟩ := List.cons.inj (List.cons.inj hcs).2
      exact absurd h (not_signed_mark (.inl rfl))
    · next hcs =>
      obtain ⟨rfl, rfl⟩ := List.cons.inj (List.cons.inj hcs).2
      exact absurd h (not_signed_mark (.inr rfl))
    · next hcs =>
      obtain ⟨rfl, rfl⟩ := List.cons.inj (List.cons.inj hcs).2
      rfl
    · next hcs => exact absurd rfl (hcs _ _)
  | decimal hcs h =>
    rw [← Decimal.read?_of_signed h]
    unfold magnitude?
    split
    · exact absurd rfl (hcs _ _)
    · exact absurd rfl (hcs _ _)
    · exact absurd rfl (hcs _ _)
    · rfl

/-- What is read there is an integer behind the mark of its base. -/
theorem exists_based_of_magnitude? {n : Int64} (h : magnitude? cs = some n) :
    ∃ v, Based cs v := by
  unfold magnitude? at h
  split at h
  · obtain ⟨v, hv⟩ := Decimal.exists_signed_of_read? h
    exact ⟨v, .hex (.inl rfl) hv⟩
  · obtain ⟨v, hv⟩ := Decimal.exists_signed_of_read? h
    exact ⟨v, .hex (.inr rfl) hv⟩
  · obtain ⟨v, hv⟩ := Decimal.exists_signed_of_read? h
    exact ⟨v, .octal hv⟩
  · next hcs =>
    obtain ⟨v, hv⟩ := Decimal.exists_signed_of_read? h
    exact ⟨v, .decimal hcs hv⟩

/-! ### The minus in front -/

theorem parse?_of_minus (hs : s.toList = '-' :: cs) :
    parse? s = (magnitude? cs).map fun n => -n := by
  unfold parse?
  rw [hs]
  rfl

theorem parse?_of_plain (hs : s.toList.head? ≠ some '-') : parse? s = magnitude? s.toList := by
  unfold parse?
  split
  · next hcs => exact absurd (by rw [hcs]; rfl) hs
  · rfl

/-- To turn the sign of what has been read is to read the integer of the other sign, but for the
least integer and for what would be its negation. -/
theorem map_neg_narrow?_iff (v : Int) :
    (∀ n, (narrow? v).map (fun n => -n) = some n ↔ n.toInt = -v) ↔
      ¬(-v = -2 ^ 63 ∨ -v = 2 ^ 63) := by
  constructor
  · intro h hv
    -- where it goes wrong, it is the least integer that is missed or that is made
    have hleast := h Int64.minValue
    rcases hv with hv | hv
    · obtain rfl : v = 2 ^ 63 := by omega
      exact absurd (hleast.mpr (by decide)) (by decide)
    · obtain rfl : v = -2 ^ 63 := by omega
      exact absurd (hleast.mp (by decide)) (by decide)
  · intro hv n
    constructor
    · intro h
      obtain ⟨m, hm, rfl⟩ := Option.map_eq_some_iff.mp h
      rw [narrow?_eq_some_iff] at hm
      rw [(toInt_neg_eq_iff m).mpr, hm]
      rintro rfl
      rw [Int64.toInt_minValue] at hm
      omega
    · intro h
      refine Option.map_eq_some_iff.mpr ⟨-n, ?_, Int64.neg_neg⟩
      rw [narrow?_eq_some_iff, (toInt_neg_eq_iff n).mpr, h, Int.neg_neg]
      rintro rfl
      rw [Int64.toInt_minValue] at h
      omega

theorem eq_cons_of_head? (h : s.toList.head? = some '-') : ∃ cs, s.toList = '-' :: cs :=
  List.head?_eq_some_iff.mp h

theorem based_of_means_minus (h : Means ('-' :: cs) v) : Based cs (-v) := by
  generalize hcs : '-' :: cs = text at h
  cases h with
  | minus h =>
    obtain rfl := (List.cons.inj hcs).2
    rwa [Int.neg_neg]
  | plain hhead h => exact absurd (by rw [← hcs]; rfl) hhead

theorem based_of_means_plain (hcs : cs.head? ≠ some '-') (h : Means cs v) : Based cs v := by
  cases h with
  | minus h => exact absurd rfl hcs
  | plain _ h => exact h

/-- What is read has a meaning. -/
theorem exists_means_of_parse? {n : Int64} (h : parse? s = some n) : ∃ v, Means s.toList v := by
  by_cases hs : s.toList.head? = some '-'
  · obtain ⟨cs, hcs⟩ := eq_cons_of_head? hs
    rw [parse?_of_minus hcs] at h
    obtain ⟨m, hm, -⟩ := Option.map_eq_some_iff.mp h
    obtain ⟨v, hv⟩ := exists_based_of_magnitude? hm
    rw [hcs]
    exact ⟨-v, .minus hv⟩
  · rw [parse?_of_plain hs] at h
    obtain ⟨v, hv⟩ := exists_based_of_magnitude? h
    exact ⟨v, .plain hs hv⟩

/-- Exactly the meaning is read, unless it is one of two behind a minus. -/
theorem parse?_iff_of_means (h : Means s.toList v) :
    (∀ n, parse? s = some n ↔ n.toInt = v) ↔
      ¬(s.toList.head? = some '-' ∧ (v = -2 ^ 63 ∨ v = 2 ^ 63)) := by
  by_cases hs : s.toList.head? = some '-'
  · obtain ⟨cs, hcs⟩ := eq_cons_of_head? hs
    rw [hcs] at h
    -- behind the minus stands the negated meaning
    have hiff := map_neg_narrow?_iff (-v)
    rw [Int.neg_neg] at hiff
    rw [parse?_of_minus hcs, magnitude?_of_based (based_of_means_minus h), hiff]
    simp only [hs, true_and]
  · rw [parse?_of_plain hs, magnitude?_of_based (based_of_means_plain hs h)]
    simp only [hs, false_and, not_false_eq_true, iff_true]
    intro n
    exact narrow?_eq_some_iff

/-- What overflows is just a minus in front of the least integer. -/
theorem overflows_iff :
    Overflows s ↔ s.toList.head? = some '-' ∧ Means s.toList (2 ^ 63) := by
  constructor
  · rintro ⟨cs, n, hcs, hn, hoverflow⟩
    -- only one integer of 64 bits has no negation there
    have hleast : n = Int64.minValue := by
      by_contra hne
      exact hoverflow ((toInt_neg_eq_iff n).mpr hne)
    obtain ⟨v, hv⟩ := exists_based_of_magnitude? hn
    rw [magnitude?_of_based hv, narrow?_eq_some_iff, hleast, Int64.toInt_minValue] at hn
    have hmeans := Means.minus hv
    rw [← hn, Int.neg_neg] at hmeans
    rw [hcs]
    exact ⟨rfl, hmeans⟩
  · rintro ⟨hs, h⟩
    obtain ⟨cs, hcs⟩ := eq_cons_of_head? hs
    rw [hcs] at h
    refine ⟨cs, Int64.minValue, hcs, ?_, by decide⟩
    rw [magnitude?_of_based (based_of_means_minus h), narrow?_eq_some_iff]
    decide

/-! ### Reading what has been written -/

/-- Digits without a leading zero are decimal. -/
theorem based_toDigits (m : Nat) : Based (Nat.toDigits 10 m) m := by
  refine .decimal (fun c rest hcs => ?_) (Decimal.positional_toDigits m).signed
  rcases Nat.eq_zero_or_pos m with rfl | hm
  · cases hcs
  · obtain ⟨d, digits, hdigits, hd⟩ := Decimal.toDigits_eq_cons hm
    rw [hdigits] at hcs
    -- more than one digit does not begin with zero
    exact hd (List.cons.inj hcs).1

/-- The text of an integer means the integer. -/
theorem means_text (n : Int64) : Means (Decimal.text n).toList n.toInt := by
  rcases Decimal.toList_text n with ⟨m, hm, htext⟩ | ⟨m, -, hm, htext⟩
  · rw [htext, hm]
    refine .plain ?_ (based_toDigits m)
    obtain ⟨c, cs, hcs, hc⟩ := Decimal.exists_digit m
    rw [hcs]
    rintro ⟨⟩
    cases hc
  · rw [htext, hm]
    exact .minus (based_toDigits m)

/-- Each integer is read again as it is written, but for the least one. -/
theorem parse?_text_iff (n : Int64) : parse? (Decimal.text n) = some n ↔ n ≠ Int64.minValue := by
  have hmin := Int64.le_toInt n
  have hmax := Int64.toInt_lt n
  have hiff := parse?_iff_of_means (means_text n)
  constructor
  · rintro h rfl
    exact absurd h (by decide +kernel)
  · intro hn
    -- a written integer is its own meaning, and none is as large as the negation of the least one
    refine (hiff.mpr ?_ n).mpr rfl
    rw [ne_eq, ← Int64.toInt_inj, Int64.toInt_minValue] at hn
    omega

theorem parseText_display_iff {d : SettingDeclaration} (hd : d.type = .number) (n : Int64) :
    Settings.parseText d (SettingValue.number n).display = .ok (.number n) ↔
      n ≠ Int64.minValue := by
  have hdisplay : (SettingValue.number n).display = Decimal.text n := rfl
  rw [← parse?_text_iff, hdisplay, Settings.parseText, hd]
  cases parse? (Decimal.text n) with
  | none => simp
  | some m => simp

/-- **Typed numbers.**  A text is read as the integer that it means, and is refused if this does
not fit in 64 bits, if and only if there is no minus in front of it or its meaning is neither the
least integer nor the negation of that; what means no integer is refused.  The sign that is turned
overflows just for that negation.  A number setting that is shown can be typed again if and only if
it is not the least integer. -/
theorem parse?_of_means (s : String) (n : Int64) :
    (∀ v, Means s.toList v → ((∀ m, parse? s = some m ↔ m.toInt = v) ↔
      ¬(s.toList.head? = some '-' ∧ (v = -2 ^ 63 ∨ v = 2 ^ 63)))) ∧
    (parse? s = some n → ∃ v, Means s.toList v) ∧
    (Overflows s ↔ s.toList.head? = some '-' ∧ Means s.toList (2 ^ 63)) ∧
    (parse? (Decimal.text n) = some n ↔ n ≠ Int64.minValue) ∧
    ∀ d : SettingDeclaration, d.type = .number →
      (Settings.parseText d (SettingValue.number n).display = .ok (.number n) ↔
        n ≠ Int64.minValue) :=
  ⟨fun _ => parse?_iff_of_means, exists_means_of_parse?, overflows_iff, parse?_text_iff n,
    fun _ hd => parseText_display_iff hd n⟩

/-- A minus in front of a hexadecimal numeral, and a number setting that is shown and typed. -/
theorem parse?_of_means_of_hexadecimal :
    Means "-0x1F".toList (-31) ∧ parse? "-0x1F" = some (-31) ∧
      (Catalogue.number "undolevels" "ul" 1000).type = .number ∧
      Settings.parseText (Catalogue.number "undolevels" "ul" 1000)
        (SettingValue.number (-31)).display = .ok (.number (-31)) := by
  have hdigits : Positional 16 ['1', 'F'] 31 := Positional.more (.one (d := 1) rfl) (d := 15) rfl
  have hmeans : Means "-0x1F".toList (-31) := .minus (.hex (.inl rfl) hdigits.signed)
  obtain ⟨hread, -, -, -, htext⟩ := parse?_of_means "-0x1F" (-31)
  refine ⟨hmeans, ((hread (-31) hmeans).mpr (by decide) (-31)).mpr (by decide), rfl, ?_⟩
  exact (htext _ rfl).mpr (by decide)

/-- The least integer is shown and not read, and the sign of the least integer is turned. -/
theorem parse?_ne_of_least :
    Decimal.text Int64.minValue = "-9223372036854775808" ∧
      Means "-9223372036854775808".toList (-2 ^ 63) ∧ parse? "-9223372036854775808" = none ∧
      Overflows "--9223372036854775808" := by
  have htext : Decimal.text Int64.minValue = "-9223372036854775808" := by decide +kernel
  have hmeans := means_text Int64.minValue
  rw [htext, Int64.toInt_minValue] at hmeans
  exact ⟨htext, hmeans, by decide +kernel, _, Int64.minValue, rfl, by decide +kernel, by decide⟩

end SettingNumber

end ModalScript
