/-
Cutting a text at a separator.

The occurrences of a separator may overlap.  It is always the first one that is cut at
(`length_le_of_breakOn`), and so there is no occurrence in the piece in front of it; the next cut
is behind it.  With the separators between them the pieces make up the text
(`intercalate_splitOn`), and where the separator is one character, cutting is what lists have for
it (`splitOn_singleton`).
-/
import Mathlib.Data.List.Infix
import ModalScript.Text.Cut

namespace ModalScript

/-! ### Texts and their characters -/

theorem map_ofList_toList (ts : List String) : (ts.map String.toList).map String.ofList = ts := by
  rw [List.map_map]
  exact List.map_id'' (fun t => String.ofList_toList) _

theorem map_toList_ofList (ts : List (List Char)) :
    (ts.map String.ofList).map String.toList = ts := by
  rw [List.map_map]
  exact List.map_id'' (fun t => String.toList_ofList) _

namespace Text

variable {sep cs front rest p : List Char}

/-! ### The first occurrence -/

theorem isPrefixOf?_eq_none_iff : sep.isPrefixOf? cs = none ↔ ¬sep <+: cs := by
  rw [← List.isPrefixOf_iff_prefix, ← List.isSome_isPrefixOf?_eq_isPrefixOf,
    Option.not_isSome_iff_eq_none]

/-- Nothing is found just where the separator does not occur. -/
theorem breakOn_eq_none_iff : breakOn sep cs = none ↔ ¬sep <:+: cs := by
  induction cs with
  | nil =>
    rw [breakOn, List.infix_nil]
    cases sep <;> simp
  | cons c cs ih =>
    rw [List.infix_cons_iff, not_or, ← ih, ← isPrefixOf?_eq_none_iff, breakOn]
    split
    · next hbegins => simp [hbegins]
    · next hbegins => simp [hbegins]

/-- No occurrence starts in front of the one that is found. -/
theorem length_le_of_breakOn {front' rest' : List Char}
    (h : breakOn sep cs = some (front, rest)) (hcs : cs = front' ++ sep ++ rest') :
    front.length ≤ front'.length := by
  induction cs generalizing front front' with
  | nil =>
    have hnil := List.append_eq_nil_iff.mp (breakOn_eq_some h).symm
    rw [(List.append_eq_nil_iff.mp hnil.1).1]
    exact Nat.zero_le _
  | cons c cs ih =>
    rw [breakOn] at h
    split at h
    · cases h
      exact Nat.zero_le _
    · next hbegins =>
      obtain ⟨⟨tail, rest⟩, htail, heq⟩ := Option.map_eq_some_iff.mp h
      cases heq
      -- an occurrence at the very start would have been found
      cases front' with
      | nil => exact absurd ⟨rest', hcs.symm⟩ (isPrefixOf?_eq_none_iff.mp hbegins)
      | cons d front' => exact Nat.succ_le_succ (ih htail (List.cons.inj hcs).2)

/-- The piece in front of the first occurrence has none in it, not even one that overlaps it. -/
theorem not_infix_of_breakOn (hsep : sep ≠ []) (h : breakOn sep cs = some (front, rest)) :
    ¬sep <:+: front := by
  rintro ⟨before, behind, rfl⟩
  -- an occurrence in the piece would start in front of the first one
  have hcs : cs = before ++ sep ++ (behind ++ sep ++ rest) := by
    rw [breakOn_eq_some h]
    simp only [List.append_assoc]
  have hlength := length_le_of_breakOn h hcs
  have := List.length_pos_iff.mpr hsep
  simp only [List.length_append] at hlength
  omega

/-! ### The pieces -/

theorem splitOn_ne_nil (sep cs : List Char) : splitOn sep cs ≠ [] := by
  rw [splitOn]
  split
  · exact List.cons_ne_nil _ _
  · split
    · exact List.cons_ne_nil _ _
    · exact List.cons_ne_nil _ _

/-- The pieces with the separators between them make up the text. -/
theorem intercalate_splitOn (sep cs : List Char) : sep.intercalate (splitOn sep cs) = cs := by
  fun_induction splitOn sep cs with
  | case1 cs hempty => exact List.intercalate_singleton
  | case2 cs hsep hnone => exact List.intercalate_singleton
  | case3 cs hsep front rest hsome ih =>
    -- behind the separator there is a piece, if only an empty one
    obtain ⟨next, pieces, hpieces⟩ := List.exists_cons_of_ne_nil (splitOn_ne_nil sep rest)
    rw [hpieces, List.intercalate_cons_cons, ← hpieces, ih, breakOn_eq_some hsome]

theorem not_infix_of_mem_splitOn (hsep : sep ≠ []) (hp : p ∈ splitOn sep cs) : ¬sep <:+: p := by
  fun_induction splitOn sep cs with
  | case1 cs hempty => exact absurd hempty hsep
  | case2 cs _ hnone =>
    obtain rfl := List.mem_singleton.mp hp
    exact breakOn_eq_none_iff.mp hnone
  | case3 cs _ front rest hsome ih =>
    rcases List.mem_cons.mp hp with rfl | hp
    · exact not_infix_of_breakOn hsep hsome
    · exact ih hp

/-- A separator of one character cuts where the character is. -/
theorem splitOn_singleton (c : Char) (cs : List Char) : splitOn [c] cs = cs.splitOn c := by
  fun_induction splitOn [c] cs with
  | case1 cs hempty => cases hempty
  | case2 cs _ hnone =>
    rw [breakOn_eq_none_iff, List.singleton_infix_iff] at hnone
    exact (List.splitOn_eq_singleton hnone).symm
  | case3 cs hsep front rest hsome ih =>
    -- an occurrence of one character is the character itself
    have hfront := not_infix_of_breakOn hsep hsome
    rw [List.singleton_infix_iff] at hfront
    rw [ih, breakOn_eq_some hsome, List.append_assoc, List.singleton_append,
      List.splitOn_append_cons_self_of_not_mem hfront]

end Text

end ModalScript
