/-
White space and the operations that cut at it.

`isBlank` is Unicode's `White_Space` property.  `trimStart`, `trimEnd` and `trim`
take blanks off the ends of a text, and `words` gives the maximal runs of
characters that are not blank.

The operations are stated on `List Char`, where the list library's lemmas
apply; a `String` goes through `toList` and comes back through `ofList`.
-/

namespace ModalScript.Text

/-- White space: the twenty-five characters of Unicode's `White_Space` property. -/
def isBlank (c : Char) : Bool :=
  let n := c.toNat
  (9 ≤ n && n ≤ 13) || n == 0x20 || n == 0x85 || n == 0xA0 || n == 0x1680 ||
    (0x2000 ≤ n && n ≤ 0x200A) || n == 0x2028 || n == 0x2029 || n == 0x202F ||
    n == 0x205F || n == 0x3000

/-- Whatever the core library takes for white space is blank. -/
theorem isBlank_of_isWhitespace {c : Char} (h : c.isWhitespace = true) : isBlank c = true := by
  simp only [Char.isWhitespace, Bool.or_eq_true, decide_eq_true_eq] at h
  rcases h with ((h | h) | h) | h <;> subst h <;> decide

/-! ### Cutting blanks off -/

/-- The text from its first character that is not blank. -/
def trimStart (cs : List Char) : List Char :=
  cs.dropWhile isBlank

/-- The text up to its last character that is not blank. -/
def trimEnd (cs : List Char) : List Char :=
  (cs.reverse.dropWhile isBlank).reverse

/-- The text without the blanks at either end. -/
def trim (cs : List Char) : List Char :=
  trimEnd (trimStart cs)

theorem mem_dropWhile_of_not {p : Char → Bool} {c : Char} {cs : List Char} (hc : c ∈ cs)
    (hp : p c = false) : c ∈ cs.dropWhile p := by
  induction cs with
  | nil => cases hc
  | cons d ds ih =>
    rw [List.dropWhile_cons]
    split
    · next hd =>
      rcases List.mem_cons.mp hc with rfl | hc
      · rw [hp] at hd
        cases hd
      · exact ih hc
    · exact hc

/-- Nothing but blanks is cut off. -/
theorem mem_trim_of_not_blank {c : Char} {cs : List Char} (hc : c ∈ cs)
    (hblank : isBlank c = false) : c ∈ trim cs := by
  have hstart : c ∈ (trimStart cs).reverse :=
    List.mem_reverse.mpr (mem_dropWhile_of_not hc hblank)
  exact List.mem_reverse.mpr (mem_dropWhile_of_not hstart hblank)

/-! ### Words -/

/-- The runs of characters that are not blank, `word` being the one under way (last
character first). -/
def wordsFrom (word : List Char) : List Char → List (List Char)
  | [] => if word.isEmpty then [] else [word.reverse]
  | c :: cs =>
    if isBlank c then
      if word.isEmpty then wordsFrom [] cs else word.reverse :: wordsFrom [] cs
    else wordsFrom (c :: word) cs

/-- The maximal runs of characters that are not blank, in order. -/
def words (cs : List Char) : List (List Char) :=
  wordsFrom [] cs

end ModalScript.Text
