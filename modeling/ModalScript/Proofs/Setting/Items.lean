/-
The items of a settings command, written and read.

A backslash in front of a blank or of a backslash stands for that character in an item, and in front
of any other character it stands for itself.  So each text can be written as an item: with a
backslash in front of each backslash and each blank in it (`SetItem.escape`), so that those come in
pairs, and the reader takes one pair after the other (`splitItemsFrom_escape`).  A blank without a
backslash ends the item (`splitItemsFrom_gap`).

Main result: `splitItems_writeItems`.
-/
import ModalScript.Command.Set

namespace ModalScript

/-! ### Writing -/

namespace SetItem

/-- Whether a backslash in front of a character is taken away. -/
def Special (c : Char) : Prop :=
  Text.isBlank c = true ∨ c = '\\'

instance (c : Char) : Decidable (Special c) :=
  inferInstanceAs (Decidable (_ ∨ _))

/-- The text of an item with a backslash in front of each backslash and each blank. -/
def escape : List Char → List Char
  | [] => []
  | c :: cs => if Special c then '\\' :: c :: escape cs else c :: escape cs

end SetItem

open SetItem (Special escape)

/-- What stands between two items: blanks, and at least one. -/
structure Gap where
  blanks : List Char
  ne_nil : blanks ≠ [] := by decide
  blank : blanks.all Text.isBlank = true := by decide

/-- Items as they are written, with a gap of their own behind each but the last. -/
def writeItemsFrom (gap : Nat → Gap) : List (List Char) → List Char
  | [] => []
  | [item] => escape item
  | item :: items =>
    escape item ++ (gap 0).blanks ++ writeItemsFrom (fun n => gap (n + 1)) items

/-- The argument of a settings command that lists the items. -/
def writeItems (gap : Nat → Gap) (items : List String) : String :=
  String.ofList (writeItemsFrom gap (items.map String.toList))

/-! ### Reading -/

variable {c : Char} {item word cs g : List Char} {items : List (List Char)}

/-- A backslash is taken away from what needs one. -/
theorem splitItemsFrom_special (hc : Special c) :
    splitItemsFrom word ('\\' :: c :: cs) = splitItemsFrom (c :: word) cs := by
  rw [splitItemsFrom]
  exact if_pos hc

/-- A character that needs no backslash stands for itself. -/
theorem splitItemsFrom_plain (hc : ¬Special c) :
    splitItemsFrom word (c :: cs) = splitItemsFrom (c :: word) cs := by
  rw [Special, not_or] at hc
  rw [splitItemsFrom, if_neg hc.1]
  -- the character is no backslash, so that the next one is not looked at
  rintro d ds rfl -
  exact hc.2 rfl

/-- A blank ends the item that has been read, if there is one. -/
theorem splitItemsFrom_blank (hc : Text.isBlank c = true) :
    splitItemsFrom word (c :: cs) =
      if word.isEmpty then splitItemsFrom [] cs else word.reverse :: splitItemsFrom [] cs := by
  rw [splitItemsFrom, if_pos hc]
  rintro d ds rfl -
  exact absurd hc (by decide)

/-- A written item is read as it was, whatever follows and whatever has been read of it before. -/
-- each character is written as one or as a pair
theorem splitItemsFrom_escape (word item cs : List Char) :
    splitItemsFrom word (escape item ++ cs) = splitItemsFrom (item.reverse ++ word) cs := by
  induction item generalizing word with
  | nil => rfl
  | cons c item ih =>
    rw [List.reverse_cons, List.append_assoc, List.singleton_append, ← ih, escape]
    split
    · next hc => exact splitItemsFrom_special hc
    · next hc => exact splitItemsFrom_plain hc

theorem splitItemsFrom_blanks (hg : g.all Text.isBlank = true) :
    splitItemsFrom [] (g ++ cs) = splitItemsFrom [] cs := by
  induction g with
  | nil => rfl
  | cons c g ih =>
    rw [List.all_cons, Bool.and_eq_true] at hg
    rw [List.cons_append, splitItemsFrom_blank hg.1]
    exact ih hg.2

/-- A gap ends the item in front of it. -/
theorem splitItemsFrom_gap (hword : word ≠ []) (gap : Gap) :
    splitItemsFrom word (gap.blanks ++ cs) = word.reverse :: splitItemsFrom [] cs := by
  obtain ⟨g, hne, hblank⟩ := gap
  cases g with
  | nil => exact absurd rfl hne
  | cons c g =>
    rw [List.all_cons, Bool.and_eq_true] at hblank
    rw [List.cons_append, splitItemsFrom_blank hblank.1, if_neg (by simpa using hword),
      splitItemsFrom_blanks hblank.2]

/-- The items are read one after the other, each up to its gap. -/
theorem splitItemsFrom_writeItemsFrom (gap : Nat → Gap) (hitems : [] ∉ items) :
    splitItemsFrom [] (writeItemsFrom gap items) = items := by
  induction items generalizing gap with
  | nil => rfl
  | cons item items ih =>
    rw [List.mem_cons, not_or] at hitems
    -- an empty item would leave nothing to be read
    have hword : item.reverse ++ [] ≠ [] := by
      simpa using Ne.symm hitems.1
    cases items with
    | nil =>
      -- the last item is ended by the end of the text
      have hend := splitItemsFrom_escape [] item []
      rw [List.append_nil] at hend
      rw [writeItemsFrom, hend, splitItemsFrom, if_neg (by simpa using hword)]
      simp
    | cons next items =>
      rw [writeItemsFrom, List.append_assoc, splitItemsFrom_escape, splitItemsFrom_gap hword,
        ih _ hitems.2]
      · simp
      · exact List.cons_ne_nil _ _

/-- **Each list of items can be written.**  Whatever the texts of the items are, as long as none is
empty, and whatever blanks stand between them, the argument is read as these items. -/
theorem splitItems_writeItems {items : List String} (hitems : "" ∉ items) (gap : Nat → Gap) :
    splitItems (writeItems gap items) = items := by
  -- the texts are not empty, and so neither are their characters
  have hchars : [] ∉ items.map String.toList := by
    intro hmem
    obtain ⟨item, hitem, hnil⟩ := List.mem_map.mp hmem
    exact hitems (String.toList_eq_nil_iff.mp hnil ▸ hitem)
  rw [splitItems, writeItems, String.toList_ofList, splitItemsFrom_writeItemsFrom gap hchars]
  simp

/-- Items with blanks and backslashes in them and at their ends, and gaps of two blanks each.  Of the
three backslashes in the second item two stand for one, and the third is that of the blank. -/
theorem splitItems_writeItems_of_backslashes :
    "" ∉ ["cb=x y\\", "a\\ b", "\\"] ∧
      splitItems "cb=x\\ y\\\\ \ta\\\\\\ b\u00a0\u2028\\\\" = ["cb=x y\\", "a\\ b", "\\"] :=
  ⟨by decide,
    @splitItems_writeItems ["cb=x y\\", "a\\ b", "\\"] (by decide) fun n =>
      if n = 0 then { blanks := [' ', '\t'] } else { blanks := ['\u00a0', '\u2028'] }⟩

end ModalScript
