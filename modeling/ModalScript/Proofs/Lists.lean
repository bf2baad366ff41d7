/-
Facts about lists that the library does not have.

They are about pairs of lists: a list and the parts it is cut into, a list and what is left of it
when its last element goes, two lists side by side, and two lists whose elements are related
place by place.
-/
import Mathlib.Data.List.Forall2

namespace ModalScript

variable {α β : Type}

/-! ### Parts of a list -/

/-- What separates the parts of a list is in none of them. -/
theorem notMem_of_mem_splitOn [BEq α] [LawfulBEq α] {a : α} {as part : List α}
    (h : part ∈ as.splitOn a) : a ∉ part := by
  induction as generalizing part with
  | nil =>
    obtain rfl := List.mem_singleton.mp h
    exact List.not_mem_nil
  | cons b as ih =>
    rw [List.splitOn_cons_eq_if_modifyHead] at h
    split at h
    · rcases List.mem_cons.mp h with rfl | h
      · exact List.not_mem_nil
      · exact ih h
    · next hb =>
      -- `b` is put in front of the first part of the rest
      obtain ⟨first, rest, hparts⟩ := List.exists_cons_of_ne_nil (List.splitOn_ne_nil a as)
      rw [hparts, List.modifyHead_cons] at h
      rcases List.mem_cons.mp h with rfl | h
      · have hfirst : a ∉ first := ih (hparts ▸ List.mem_cons_self)
        rintro (_ | ⟨_, hmem⟩)
        · exact hb BEq.rfl
        · exact hfirst hmem
      · exact ih (hparts ▸ List.mem_cons_of_mem _ h)

/-- A list that is part of another one, in its order, is so without the last elements of both. -/
theorem sublist_dropLast {as bs : List α} (h : as.Sublist bs) :
    as.dropLast.Sublist bs.dropLast := by
  have htail := (List.reverse_sublist.mpr h).tail
  rwa [List.tail_reverse, List.tail_reverse, List.reverse_sublist] at htail

/-! ### Two lists side by side -/

/-- As many elements have a partner as the other list is long. -/
theorem map_fst_zip_eq_take (as : List α) (bs : List β) :
    (as.zip bs).map Prod.fst = as.take bs.length := by
  induction as generalizing bs with
  | nil => rw [List.take_nil]; rfl
  | cons a as ih =>
    cases bs with
    | nil => rfl
    | cons b bs => exact congrArg (a :: ·) (ih bs)

/-- The second list gets the partners that the first one has left over. -/
theorem zip_append_left (as as' : List α) (bs : List β) :
    (as ++ as').zip bs = as.zip bs ++ as'.zip (bs.drop as.length) := by
  induction as generalizing bs with
  | nil => rfl
  | cons a as ih =>
    cases bs with
    | nil => rw [List.drop_nil, List.zip_nil_right, List.zip_nil_right, List.zip_nil_right]; rfl
    | cons b bs => exact congrArg ((a, b) :: ·) (ih bs)

/-! ### Related elements at equal places -/

section Related

variable {R : α → β → Prop} {as : List α} {bs : List β}

theorem forall₂_mem (h : List.Forall₂ R as bs) :
    List.Forall₂ (fun a b => a ∈ as ∧ R a b) as bs :=
  (List.forall₂_and_left _ _).mpr ⟨fun _ ha => ha, h⟩

/-- Each element has a partner. -/
theorem exists_of_mem_forall₂ {a : α} (h : List.Forall₂ R as bs) (ha : a ∈ as) :
    ∃ b ∈ bs, R a b := by
  induction h with
  | nil => cases ha
  | cons hab _ ih =>
    rcases List.mem_cons.mp ha with rfl | ha
    · exact ⟨_, List.mem_cons_self, hab⟩
    · obtain ⟨b, hb, hab⟩ := ih ha
      exact ⟨b, List.mem_cons_of_mem _ hb, hab⟩

end Related

theorem forall₂_trans {R : α → α → Prop} {as bs cs : List α}
    (htrans : ∀ {a b c}, R a b → R b c → R a c) (hab : List.Forall₂ R as bs)
    (hbc : List.Forall₂ R bs cs) : List.Forall₂ R as cs := by
  induction hab generalizing cs with
  | nil => exact hbc
  | cons ha _ ih =>
    cases hbc with
    | cons hb hrest => exact .cons (htrans ha hb) (ih hrest)

end ModalScript
