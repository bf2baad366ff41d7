/-
Digits and signs, and the integers that they write.

An integer is written as the digits of its size, of which the first one is no zero unless it is
the only one, with a minus in front of them if the integer is negative (`toList_text`).
-/
import Mathlib.Algebra.Group.Int.Defs
import Mathlib.Data.String.Basic
import ModalScript.Decimal.Numeral

namespace ModalScript.Decimal

/-! ### Signs -/

/-- What may stand in front of digits. -/
inductive Sign where
  | absent
  | plus
  | minus
  deriving DecidableEq

namespace Sign

/-- A sign as it is written. -/
def chars : Sign → List Char
  | absent => []
  | plus => ['+']
  | minus => ['-']

/-- The integer with a sign and a size. -/
def apply : Sign → Nat → Int
  | absent, n | plus, n => n
  | minus, n => -n

end Sign

/-! ### Digits -/

/-- A digit is the character of a number below ten. -/
theorem exists_digitChar {c : Char} (hc : c.isDigit) : ∃ n < 10, n.digitChar = c := by
  have hdigits : ∀ n < 10, n.digitChar = Char.ofNat (n + 48) := by decide
  obtain ⟨hmin, hmax⟩ : 48 ≤ c.toNat ∧ c.toNat ≤ 57 := Char.isDigit_iff_toNat.mp hc
  refine ⟨c.toNat - 48, by omega, ?_⟩
  rw [hdigits _ (by omega), Nat.sub_add_cancel hmin, Char.ofNat_toNat]

theorem digitChar_ne_zero : ∀ n < 10, 0 < n → n.digitChar ≠ '0' := by
  decide

/-- Only zero is written with a leading zero. -/
theorem toDigits_eq_cons {n : Nat} (hn : 0 < n) :
    ∃ c cs, Nat.toDigits 10 n = c :: cs ∧ c ≠ '0' := by
  induction n using Nat.strongRecOn with
  | ind n ih =>
    rw [Nat.toDigits_eq_if (by decide)]
    split
    · next hlt => exact ⟨n.digitChar, [], rfl, digitChar_ne_zero n hlt hn⟩
    · -- the digits of the tenth part come first, and it is no zero here
      obtain ⟨c, cs, hcs, hc⟩ := ih (n / 10) (by omega) (by omega)
      exact ⟨c, cs ++ [(n % 10).digitChar], by rw [hcs, List.cons_append], hc⟩

theorem exists_digit (m : Nat) : ∃ c cs, Nat.toDigits 10 m = c :: cs ∧ c.isDigit := by
  obtain ⟨c, cs, hcs⟩ := List.exists_cons_of_ne_nil (Nat.toDigits_ne_nil (n := m) (b := 10))
  exact ⟨c, cs, hcs, Nat.isDigit_of_mem_toDigits (by decide) (by decide)
    (hcs ▸ List.mem_cons_self : c ∈ Nat.toDigits 10 m)⟩

/-- An integer is written as digits, with a minus in front of them if it is negative. -/
theorem toList_text (n : Int64) :
    (∃ m : Nat, n.toInt = m ∧ (text n).toList = Nat.toDigits 10 m) ∨
      ∃ m : Nat, 0 < m ∧ n.toInt = -(m : Int) ∧ (text n).toList = '-' :: Nat.toDigits 10 m := by
  unfold text
  cases hm : n.toInt with
  | ofNat m => exact .inl ⟨m, rfl, Nat.toList_repr⟩
  | negSucc m =>
    refine .inr ⟨m + 1, Nat.succ_pos m, rfl, ?_⟩
    show ("-" ++ (m + 1).repr).toList = _
    rw [String.toList_append, Nat.toList_repr]
    rfl

/-! ### Integers of 64 bits -/

theorem toInt_clamp (n : Nat) : (clamp n).toInt = min (n : Int) (2 ^ 63 - 1) := by
  unfold clamp
  rw [Int64.toInt_ofNat_of_lt (by omega)]
  omega

theorem toInt_clamp_of_lt {n : Nat} (hn : n < 2 ^ 63) : (clamp n).toInt = n := by
  rw [toInt_clamp]
  omega

/-- An integer of 64 bits is found for just the numbers that it can be. -/
theorem narrow?_eq_some_iff {v : Int} {n : Int64} : narrow? v = some n ↔ n.toInt = v := by
  have hmin := Int64.le_toInt n
  have hmax := Int64.toInt_lt n
  unfold narrow?
  rw [Int64.toInt_minValue, Int64.toInt_maxValue]
  split
  · next hv =>
    have hofInt : (Int64.ofInt v).toInt = v := Int64.toInt_ofInt_of_le hv.1 (by omega)
    rw [Option.some.injEq, ← Int64.toInt_inj, hofInt]
    exact eq_comm
  · next hv =>
    constructor
    · intro h
      cases h
    · intro h
      omega

end ModalScript.Decimal
