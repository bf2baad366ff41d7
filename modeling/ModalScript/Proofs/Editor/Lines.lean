/-
The lines of a buffer, and what deleting some of them leaves.

Where line feeds are the only line breaks, alone or behind carriage returns (`LineFeedsOnly`), the
lines with a line feed behind each make up the text, and deleting lines leaves the other lines
(`lines_of_lineFeedsOnly`).

Other line breaks end pieces as well, but not lines: the empty piece behind a line feed at the end
of a text is no line, whereas that behind any other break is one.  So the number of lines does not
tell how many breaks there are, and deleting lines may change it by one more or one less than their
number, when another kind of break comes to stand at the end; and it changes it by one more when a
carriage return comes to stand in front of a line feed.  `lineCount_deleteLines_iff` says when
that happens.
-/
import Mathlib.Data.List.Basic
import ModalScript.Proofs.Editor.Pieces

namespace ModalScript

/-! ### Texts with line feeds only -/

/-- Every line break is a line feed, or a carriage return in front of one. -/
def LineFeedsOnly : List Char → Prop
  | [] => True
  | c :: cs =>
    (isLineBreak c = true → c = '\n' ∨ c = '\r' ∧ cs.head? = some '\n') ∧ LineFeedsOnly cs

instance decidableLineFeedsOnly : DecidablePred LineFeedsOnly
  | [] => inferInstanceAs (Decidable True)
  | _ :: cs =>
    have := decidableLineFeedsOnly cs
    inferInstanceAs (Decidable (_ ∧ _))

variable {p t cs ds : List Char} {ps ts : List (List Char)}

theorem LineFeedsOnly.right (h : LineFeedsOnly (cs ++ ds)) : LineFeedsOnly ds := by
  induction cs with
  | nil => exact h
  | cons c cs ih => exact ih h.2

/-- What ends a piece of such a text is a line feed. -/
theorem EndsLine.getLast?_eq (hp : EndsLine p) (hjoins : ¬Joins p cs)
    (h : LineFeedsOnly (p ++ cs)) : p.getLast? = some '\n' := by
  cases hp with
  | pair _ => simp
  | @single p c _ hbreak =>
    rw [List.append_assoc] at h
    obtain rfl | ⟨rfl, hfeed⟩ := h.right.1 hbreak
    · exact List.getLast?_concat
    · -- the line feed behind the carriage return belongs to the same piece
      exact absurd (joins_append_left.mpr (.inl ⟨rfl, hfeed⟩)) hjoins

/-- All the pieces of such a text but the last one end in line feeds. -/
theorem Cut.exists_last (hcut : Cut ps) (h : LineFeedsOnly ps.flatten) :
    ∃ ts p, ps = ts ++ [p] ∧ (∀ t ∈ ts, t.getLast? = some '\n') ∧ Unbroken p := by
  induction hcut with
  | @last p hp => exact ⟨[], p, rfl, List.forall_mem_nil _, hp⟩
  | @cons q ps hq hjoins _ ih =>
    obtain ⟨ts, p, rfl, hts, hp⟩ := ih h.right
    exact ⟨q :: ts, p, rfl, List.forall_mem_cons.mpr ⟨hq.getLast?_eq hjoins h, hts⟩, hp⟩

/-- Pieces that end in line feeds make up a text that does, if there are any. -/
theorem getLast?_flatten_of_feeds (hts : ∀ t ∈ ts, t.getLast? = some '\n') :
    ts.flatten.getLast? = if ts = [] then none else some '\n' := by
  rcases ts.eq_nil_or_concat with rfl | ⟨ts, t, rfl⟩
  · rfl
  · have ht : t.getLast? = some '\n' := hts t (by simp)
    rw [List.concat_eq_append, if_neg (by simp), List.flatten_append, List.flatten_singleton,
      List.getLast?_append, ht]
    rfl

namespace Buffer

variable {b : Buffer} {first last : Nat}

/-! ### The texts of the lines -/

/-- What is shown of a piece of the text as a line. -/
def lineText (p : List Char) : String :=
  String.ofList (stripLineFeed p)

/-- The texts of the lines, in order. -/
def lines (b : Buffer) : List String :=
  (b.pieces.take b.lineCount).map lineText

theorem getElem?_lines (b : Buffer) (i : Nat) : b.lines[i]? = b.line? i := by
  rw [lines, List.getElem?_map, List.getElem?_take, line?]
  split <;> rfl

theorem length_lines (b : Buffer) : b.lines.length = b.lineCount := by
  rw [lines, List.length_map, List.length_take, Nat.min_eq_left b.lineCount_le_length_pieces]

/-- A line is shown without the line feed at its end. -/
theorem toList_lineText_of_feed (ht : t.getLast? = some '\n') :
    (lineText t).toList ++ ['\n'] = t := by
  obtain ⟨u, rfl⟩ := List.getLast?_eq_some_iff.mp ht
  rw [lineText, String.toList_ofList, stripLineFeed, if_pos ht, List.dropLast_concat]

theorem lineText_of_unbroken (hp : Unbroken p) : lineText p = String.ofList p := by
  rw [lineText, stripLineFeed, if_neg]
  intro hfeed
  exact hp '\n' (List.mem_of_getLast? hfeed) rfl

/-! ### Parts of the text -/

/-- The text in front of a line. -/
def textBefore (b : Buffer) (line : Nat) : List Char :=
  (b.pieces.take line).flatten

/-- The text behind a line and its line break. -/
def textBehind (b : Buffer) (line : Nat) : List Char :=
  (b.pieces.drop (line + 1)).flatten

/-- The pieces on both sides of a place are those of the texts there; in front of it there is an
empty piece at the end. -/
theorem cut_parts {n : Nat} (h : n < b.pieces.length) :
    Cut (b.pieces.take n ++ [[]]) ∧ Cut (b.pieces.drop n) := by
  have hcut : Cut (b.pieces.take n ++ b.pieces.drop n) := by
    rw [List.take_append_drop]
    exact cut_pieces b.chars
  have hrest : b.pieces.drop n ≠ [] := by
    rwa [Ne, List.drop_eq_nil_iff, Nat.not_le]
  exact ⟨hcut.left hrest, hcut.right hrest⟩

/-! ### Lines that end in line feeds -/

/-- The text is made up of pieces that end in line feeds, and of a last one without a line
break. -/
structure Consists (b : Buffer) (ts : List (List Char)) (p : List Char) : Prop where
  pieces : b.pieces = ts ++ [p]
  feeds : ∀ t ∈ ts, t.getLast? = some '\n'
  rest : Unbroken p

theorem exists_consists (h : LineFeedsOnly b.chars) : ∃ ts p, b.Consists ts p := by
  rw [← flatten_pieces b.chars] at h
  obtain ⟨ts, p, hpieces, hts, hp⟩ := (cut_pieces b.chars).exists_last h
  exact ⟨ts, p, hpieces, hts, hp⟩

namespace Consists

theorem chars_eq (h : b.Consists ts p) : b.chars = ts.flatten ++ p := by
  have hflat : b.pieces.flatten = b.chars := flatten_pieces b.chars
  rw [← hflat, h.pieces, List.flatten_append, List.flatten_singleton]

/-- The text ends in a line feed where the last piece is empty and not the only one. -/
theorem endsInLineFeed_iff (h : b.Consists ts p) :
    b.endsInLineFeed = true ↔ p = [] ∧ ts ≠ [] := by
  rw [endsInLineFeed, beq_iff_eq, h.chars_eq]
  rcases p.eq_nil_or_concat with rfl | ⟨p, c, rfl⟩
  · rw [List.append_nil, getLast?_flatten_of_feeds h.feeds]
    simp
  · -- the last character is not a line break
    have hc : c ≠ '\n' := by
      rintro rfl
      exact h.rest '\n' (by simp) rfl
    simp [← List.append_assoc, hc]

/-- The last piece is a line unless it is empty and not the only one. -/
theorem lineCount_eq (h : b.Consists ts p) :
    b.lineCount = if p = [] ∧ ts ≠ [] then ts.length else ts.length + 1 := by
  rw [lineCount, h.pieces, List.length_append, List.length_singleton]
  simp only [h.endsInLineFeed_iff, Nat.add_sub_cancel]

theorem lines_eq (h : b.Consists ts p) :
    b.lines = if p = [] ∧ ts ≠ [] then ts.map lineText else (ts ++ [p]).map lineText := by
  rw [lines, h.pieces, h.lineCount_eq]
  split
  · rw [List.take_left]
  · rw [List.take_of_length_le (by simp)]

/-- The lines, with a line feed behind each, make up the text. -/
theorem join_lines (h : b.Consists ts p) :
    String.join (b.lines.map (· ++ "\n")) =
      if b.endsInLineFeed then b.text else b.text ++ "\n" := by
  have hfeeds : ts.flatMap (fun t => (lineText t).toList ++ ['\n']) = ts.flatten := by
    rw [List.flatMap_def, List.map_congr_left fun t ht => toList_lineText_of_feed (h.feeds t ht),
      List.map_id']
  have hrest : (lineText p).toList = p := by
    rw [lineText_of_unbroken h.rest, String.toList_ofList]
  have hends := h.endsInLineFeed_iff
  rw [← String.toList_inj, String.toList_join, h.lines_eq]
  -- a last piece that is a line has no line feed of its own
  split
  · next hp =>
    rw [if_pos (hends.mpr hp), text, String.toList_ofList, h.chars_eq, hp.1, List.append_nil,
      ← hfeeds]
    simp [List.flatMap_map]
  · next hp =>
    rw [if_neg (mt hends.mp hp), text, String.toList_append, String.toList_ofList, h.chars_eq,
      ← hfeeds]
    simp [List.flatMap_map, hrest]

end Consists

/-! ### Deleting lines -/

theorem deleteLines_eq (hle : first ≤ last) (hlast : last < b.lineCount) :
    b.deleteLines first last = ⟨b.textBefore first ++ b.textBehind last⟩ :=
  deleteLines_of_lt hle hlast

/-- Lines that the buffer does not have are not deleted. -/
theorem deleteLines_min (hle : first ≤ last) (hfirst : first < b.lineCount) :
    b.deleteLines first last = b.deleteLines first (min last (b.lineCount - 1)) := by
  unfold deleteLines
  rw [if_neg (by omega), if_neg (by omega), Nat.min_assoc, Nat.min_self]

/-- Where the range begins behind its end or behind the last line nothing is deleted. -/
theorem deleteLines_of_outside (h : ¬(first ≤ last ∧ first < b.lineCount)) :
    b.deleteLines first last = b := by
  unfold deleteLines
  rw [if_pos (by omega)]

namespace Consists

theorem take_pieces (h : b.Consists ts p) (hfirst : first ≤ ts.length) :
    b.pieces.take first = ts.take first := by
  rw [h.pieces, List.take_append_of_le_length hfirst]

/-- No carriage return stands at the end of a line. -/
theorem not_joins (h : b.Consists ts p) (hfirst : first ≤ ts.length) (cs : List Char) :
    ¬Joins (b.textBefore first) cs := by
  rintro ⟨hreturn, -⟩
  rw [textBefore, h.take_pieces hfirst,
    getLast?_flatten_of_feeds fun t ht => h.feeds t (List.mem_of_mem_take ht)] at hreturn
  split at hreturn <;> cases hreturn

/-- The other pieces are left, and no text without a line feed if it has been deleted. -/
theorem deleteLines (h : b.Consists ts p) (hle : first ≤ last) (hlast : last < b.lineCount) :
    (b.deleteLines first last).Consists (ts.take first ++ ts.drop (last + 1))
      (if last < ts.length then p else []) := by
  have hlength : b.pieces.length = ts.length + 1 := by rw [h.pieces]; simp
  have hcount := b.lineCount_le_length_pieces
  have htake : b.pieces.take first = ts.take first := h.take_pieces (by omega)
  refine ⟨?_, ?_, ?_⟩
  · rw [deleteLines_eq hle hlast]
    refine pieces_eq_iff.mpr ?_
    -- in front of the range the pieces end in line feeds, behind it they are as they were
    have hfront : Cut (ts.take first ++ [[]]) := htake ▸ (cut_parts (by omega)).1
    by_cases hrest : last < ts.length
    · have hdrop : b.pieces.drop (last + 1) = ts.drop (last + 1) ++ [p] := by
        rw [h.pieces, List.drop_append_of_le_length (by omega)]
      have hjoins : ¬Joins (b.textBefore first) (b.textBehind last) := h.not_joins (by omega) _
      rw [textBefore, textBehind, htake, hdrop] at hjoins ⊢
      rw [if_pos hrest, List.append_assoc, List.flatten_append]
      exact ⟨hfront.append (hdrop ▸ (cut_parts (by omega)).2) hjoins, rfl⟩
    · -- the last piece goes with the range
      have hdrop : ts.drop (last + 1) = [] := List.drop_of_length_le (by omega)
      have hbehind : b.textBehind last = [] := by
        rw [textBehind, List.drop_of_length_le (by omega), List.flatten_nil]
      rw [if_neg hrest, hdrop, hbehind, textBefore, htake]
      simpa using hfront
  · intro t ht
    rcases List.mem_append.mp ht with ht | ht
    · exact h.feeds t (List.mem_of_mem_take ht)
    · exact h.feeds t (List.mem_of_mem_drop ht)
  · split
    · exact h.rest
    · exact unbroken_nil

end Consists

/-- The texts of the lines outside of a range. -/
def linesOutside (b : Buffer) (first last : Nat) : List String :=
  b.lines.take first ++ b.lines.drop (last + 1)

theorem linesOutside_min (b : Buffer) (first last : Nat) :
    b.linesOutside first (min last (b.lineCount - 1)) = b.linesOutside first last := by
  have hpos := b.lineCount_pos
  rcases Nat.lt_or_ge last b.lineCount with hlast | hlast
  · rw [Nat.min_eq_left (by omega)]
  · have hlength := b.length_lines
    rw [Nat.min_eq_right (by omega), linesOutside, linesOutside,
      List.drop_of_length_le (by omega), List.drop_of_length_le (by omega)]

namespace Consists

/-- The last line is among those outside unless it has been deleted or is no line. -/
theorem linesOutside_eq (h : b.Consists ts p) (hle : first ≤ last) (hlast : last < b.lineCount) :
    b.linesOutside first last =
      (ts.take first ++ ts.drop (last + 1)).map lineText ++
        if p ≠ [] ∧ last < ts.length then [lineText p] else [] := by
  rw [h.lineCount_eq] at hlast
  rw [linesOutside, h.lines_eq]
  by_cases hended : p = [] ∧ ts ≠ []
  · rw [if_pos hended, if_neg (fun hopen => hopen.1 hended.1)]
    simp
  · rw [if_neg hended] at hlast ⊢
    rw [List.map_append, List.take_append_of_le_length (by rw [List.length_map]; omega)]
    by_cases hrest : last < ts.length
    · have hp : p ≠ [] := fun hp => hended ⟨hp, List.ne_nil_of_length_pos (by omega)⟩
      rw [if_pos ⟨hp, hrest⟩, List.drop_append_of_le_length (by rw [List.length_map]; omega)]
      simp
    · rw [if_neg (fun hopen => hrest hopen.2), List.drop_of_length_le (by simp; omega),
        List.drop_of_length_le (by omega)]
      simp

/-- The other lines are left, or an empty one. -/
theorem lines_deleteLines (h : b.Consists ts p) (hle : first ≤ last) (hlast : last < b.lineCount) :
    (b.deleteLines first last).lines =
      if b.linesOutside first last = [] then [""] else b.linesOutside first last := by
  rw [(h.deleteLines hle hlast).lines_eq, h.linesOutside_eq hle hlast]
  generalize ts.take first ++ ts.drop (last + 1) = left
  by_cases hopen : p ≠ [] ∧ last < ts.length
  · rw [if_pos hopen.2, if_neg (fun hended => hopen.1 hended.1), if_pos hopen, if_neg (by simp),
      List.map_append, List.map_singleton]
  · have hp : (if last < ts.length then p else []) = [] := by
      split
      · next hrest => exact Classical.byContradiction fun hp => hopen ⟨hp, hrest⟩
      · rfl
    rw [hp, if_neg hopen, List.append_nil]
    cases left with
    | nil => rfl
    | cons t left => simp

end Consists

/-- **Texts whose line breaks are line feeds.**  The lines, with a line feed behind each, make up
the text, but for the line feed behind the last one if the text does not end in one.  Deleting lines
leaves the lines outside of the range, or an empty line if there are none, and where the range
begins behind its end or behind the last line nothing is deleted. -/
theorem lines_of_lineFeedsOnly (h : LineFeedsOnly b.chars) :
    (∀ i, b.lines[i]? = b.line? i) ∧ b.lines.length = b.lineCount ∧
    String.join (b.lines.map (· ++ "\n")) = (if b.endsInLineFeed then b.text else b.text ++ "\n") ∧
    ∀ first last,
      (first ≤ last → first < b.lineCount →
        (b.deleteLines first last).lines =
          if b.linesOutside first last = [] then [""] else b.linesOutside first last) ∧
      (¬(first ≤ last ∧ first < b.lineCount) → b.deleteLines first last = b) := by
  obtain ⟨ts, p, hconsists⟩ := exists_consists h
  refine ⟨b.getElem?_lines, b.length_lines, hconsists.join_lines, fun first last => ⟨?_, ?_⟩⟩
  · intro hle hfirst
    rw [deleteLines_min hle hfirst, ← b.linesOutside_min first last]
    exact hconsists.lines_deleteLines (by omega) (by omega)
  · exact deleteLines_of_outside

/-- Line feeds behind carriage returns and without, an empty line, no line feed at the end, and a
range that goes beyond it. -/
theorem lines_of_lineFeedsOnly_of_unterminated :
    LineFeedsOnly (ofString "one\r\n\ntwo").chars ∧
      String.join ((ofString "one\r\n\ntwo").lines.map (· ++ "\n")) = "one\r\n\ntwo\n" ∧
      ((ofString "one\r\n\ntwo").deleteLines 1 7).lines = ["one\r"] ∧
      ((ofString "one\r\n\ntwo").deleteLines 0 7).lines = [""] ∧
      (ofString "one\r\n\ntwo").deleteLines 3 7 = ofString "one\r\n\ntwo" := by
  have hfeeds : LineFeedsOnly (ofString "one\r\n\ntwo").chars := by decide
  obtain ⟨-, -, hjoin, hdelete⟩ := lines_of_lineFeedsOnly hfeeds
  exact ⟨hfeeds, hjoin, (hdelete 1 7).1 (by decide) (by decide),
    (hdelete 0 7).1 (by decide) (by decide), (hdelete 3 7).2 (by decide)⟩

/-! ### The number of lines -/

/-- Of the pieces that of the text behind a line feed at the end is no line. -/
theorem lineCount_add (b : Buffer) :
    b.lineCount + (if b.chars.getLast? = some '\n' then 1 else 0) = b.pieces.length := by
  have hpos := length_pieces_pos b.chars
  simp only [lineCount, endsInLineFeed, beq_iff_eq, pieces]
  split <;> omega

/-- The text in front of a line is cut into the pieces in front of it and an empty one. -/
theorem length_pieces_textBefore (h : first < b.pieces.length) :
    (ModalScript.pieces (b.textBefore first)).length = first + 1 := by
  have hpieces := (cut_parts h).1.pieces_flatten
  rw [List.flatten_append, List.flatten_singleton, List.append_nil] at hpieces
  rw [textBefore, hpieces, List.length_append, List.length_take, Nat.min_eq_left (by omega)]
  rfl

theorem length_pieces_textBehind (h : last + 1 < b.pieces.length) :
    (ModalScript.pieces (b.textBehind last)).length = b.pieces.length - (last + 1) := by
  rw [textBehind, (cut_parts h).2.pieces_flatten, List.length_drop]

/-- Behind the last lines there is nothing or an empty piece. -/
theorem length_pieces_le_of_textBehind (h : b.textBehind last = []) :
    b.pieces.length ≤ last + 2 := by
  by_cases hlast : last + 1 < b.pieces.length
  · have hlength := length_pieces_textBehind hlast
    rw [h] at hlength
    have hone : (ModalScript.pieces []).length = 1 := rfl
    omega
  · omega

/-- A text behind the lines ends as the whole text does. -/
theorem getLast?_textBehind (h : b.textBehind last ≠ []) :
    (b.textBehind last).getLast? = b.chars.getLast? := by
  have hflat : b.pieces.flatten = b.chars := flatten_pieces b.chars
  rw [← hflat, ← List.take_append_drop (last + 1) b.pieces, List.flatten_append]
  exact (List.getLast?_append_of_ne_nil _ h).symm

/-- With text behind the lines. -/
theorem lineCount_deleteLines_of_text (hle : first ≤ last) (hlast : last < b.lineCount)
    (hbehind : b.textBehind last ≠ []) :
    (b.deleteLines first last).lineCount + (last - first + 1) +
        (if Joins (b.textBefore first) (b.textBehind last) then 1 else 0) = b.lineCount := by
  -- text behind the lines is text of some piece
  have hlength : last + 1 < b.pieces.length := by
    have hdrop : b.pieces.drop (last + 1) ≠ [] := by
      intro hnil
      rw [textBehind, hnil] at hbehind
      exact hbehind rfl
    rwa [Ne, List.drop_eq_nil_iff, Nat.not_le] at hdrop
  have hpieces := length_pieces_append (b.textBefore first) (b.textBehind last)
  rw [length_pieces_textBefore (by omega), length_pieces_textBehind hlength] at hpieces
  have hafter := lineCount_add (b.deleteLines first last)
  rw [deleteLines_eq hle hlast, List.getLast?_append_of_ne_nil _ hbehind,
    getLast?_textBehind hbehind] at hafter
  have hbefore := b.lineCount_add
  rw [deleteLines_eq hle hlast]
  simp only [pieces] at hafter hbefore hpieces hlength ⊢
  omega

/-- With no text behind the lines. -/
theorem lineCount_deleteLines_of_end (hle : first ≤ last) (hlast : last < b.lineCount)
    (hbehind : b.textBehind last = []) :
    (b.deleteLines first last).lineCount +
        (if (b.textBefore first).getLast? = some '\n' then 1 else 0) = first + 1 := by
  have hcount := b.lineCount_le_length_pieces
  have hafter := lineCount_add (b.deleteLines first last)
  rw [deleteLines_eq hle hlast, hbehind, List.append_nil] at hafter ⊢
  rw [hafter]
  exact length_pieces_textBefore (by omega)

/-- With line feeds only, just the lines of the range are gone. -/
theorem lineCount_deleteLines_of_lineFeedsOnly (h : LineFeedsOnly b.chars) (hle : first ≤ last)
    (hlast : last < b.lineCount) :
    (b.deleteLines first last).lineCount = max 1 (b.lineCount - (last - first + 1)) := by
  obtain ⟨ts, p, hconsists⟩ := exists_consists h
  have hlength : (b.linesOutside first last).length = b.lineCount - (last - first + 1) := by
    rw [linesOutside, List.length_append, List.length_take, List.length_drop, b.length_lines]
    omega
  rw [← length_lines, hconsists.lines_deleteLines hle hlast, ← hlength]
  split
  · next hnil => rw [hnil]; rfl
  · next hne => exact (Nat.max_eq_right (List.length_pos_iff.mpr hne)).symm

/-- **How many lines are gone.**  Deleting lines takes away as many as there are in the range, but
leaves one at least, just if no carriage return comes to stand in front of a line feed and, where
no text is left behind the range, the text in front of it ends in a line feed if the last line has
been deleted and does not if it has not.  So it is where line feeds are the only line breaks. -/
theorem lineCount_deleteLines_iff (hle : first ≤ last) (hlast : last < b.lineCount) :
    ((b.deleteLines first last).lineCount = max 1 (b.lineCount - (last - first + 1)) ↔
      ¬Joins (b.textBefore first) (b.textBehind last) ∧
      (b.textBehind last = [] →
        first = 0 ∨ ((b.textBefore first).getLast? = some '\n' ↔ last + 1 = b.lineCount))) ∧
    (LineFeedsOnly b.chars →
      (b.deleteLines first last).lineCount = max 1 (b.lineCount - (last - first + 1))) := by
  refine ⟨?_, fun h => lineCount_deleteLines_of_lineFeedsOnly h hle hlast⟩
  have hpos := (b.deleteLines first last).lineCount_pos
  by_cases hbehind : b.textBehind last = []
  · -- what stands at the end now is what stood in front of the range
    have hafter := lineCount_deleteLines_of_end hle hlast hbehind
    have hlength := length_pieces_le_of_textBehind hbehind
    have hbefore := b.lineCount_add
    -- in front of the first line there is no text that could end in a line feed
    have hstart : first = 0 → (b.textBefore first).getLast? ≠ some '\n' := by
      rintro rfl
      exact fun h => nomatch h
    simp only [hbehind, not_joins_nil_right, not_false_eq_true, true_and, forall_const]
    by_cases hfeed : (b.textBefore first).getLast? = some '\n'
    · have hfirst : first ≠ 0 := fun h => hstart h hfeed
      rw [if_pos hfeed] at hafter
      simp only [hfeed, hfirst, true_iff, false_or]
      omega
    · rw [if_neg hfeed] at hafter
      simp only [hfeed, false_iff]
      omega
  · -- the end of the text is what it was, so that only a pair that forms in the middle matters
    have hafter := lineCount_deleteLines_of_text hle hlast hbehind
    simp only [hbehind, false_implies, and_true]
    by_cases hjoins : Joins (b.textBefore first) (b.textBehind last)
    · rw [if_pos hjoins] at hafter
      simp only [hjoins, not_true_eq_false, iff_false]
      omega
    · rw [if_neg hjoins] at hafter
      simp only [hjoins, not_false_eq_true, iff_true]
      omega

/-- Line breaks of four kinds: the carriage return in front of the deleted line does not meet the
line feed behind the next one. -/
theorem lineCount_deleteLines_iff_of_middle :
    1 ≤ 1 ∧ 1 < (ofString "a\r\u2028b\n\x0bc").lineCount ∧
      ((ofString "a\r\u2028b\n\x0bc").deleteLines 1 1).lineCount =
        max 1 ((ofString "a\r\u2028b\n\x0bc").lineCount - 1) := by
  have hlast : 1 < (ofString "a\r\u2028b\n\x0bc").lineCount := by decide
  exact ⟨Nat.le_refl 1, hlast,
    (lineCount_deleteLines_iff (Nat.le_refl 1) hlast).1.mpr ⟨by decide, by decide⟩⟩

/-- Two lines with a carriage return between them.  When the last one is deleted, the empty line
behind the carriage return takes its place, so that there are two lines as before. -/
theorem lineCount_deleteLines_ne_of_return :
    1 < (ofString "a\rb").lineCount ∧ ((ofString "a\rb").deleteLines 1 1).lineCount = 2 ∧
      ((ofString "a\rb").deleteLines 1 1).lineCount ≠
        max 1 ((ofString "a\rb").lineCount - (1 - 1 + 1)) := by
  decide

/-- A line between a carriage return and a line feed, which become one break. -/
example : (ofString "a\rb\n\n").lineCount = 3 ∧
    ((ofString "a\rb\n\n").deleteLines 1 1).lineCount = 1 := by
  decide

end Buffer

end ModalScript
