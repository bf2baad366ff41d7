/-
The cursor stands in the text.

A text has at least one line, be it empty: it has at least one piece, and one more if it ends in a
line feed, behind which there is an empty piece that is no line (`two_le_length_pieces`).  So there
is always a line to put the cursor on.  Moving the cursor and deleting lines put it there whatever
their arguments are and wherever it has been (`inBounds_goTo`, `inBounds_clampCursor`).
-/
import ModalScript.Editor.Basic

namespace ModalScript

/-! ### Lines and pieces -/

/-- A character in front of a text makes no further piece of it. -/
theorem length_consPiece (c : Char) {ps : List (List Char)} (h : ps ≠ []) :
    (consPiece c ps).length = ps.length := by
  obtain ⟨p, ps, rfl⟩ := List.exists_cons_of_ne_nil h
  rfl

theorem length_pieces_pos (cs : List Char) : 0 < (pieces cs).length :=
  List.length_pos_iff.mpr (pieces_ne_nil cs)

/-- Behind a line feed at the end there is a piece of its own. -/
theorem two_le_length_pieces {cs : List Char} (h : cs.getLast? = some '\n') :
    2 ≤ (pieces cs).length := by
  fun_induction pieces cs with
  | case1 => cases h
  | case2 cs | case3 c cs => exact Nat.succ_le_succ (length_pieces_pos cs)
  | case4 c cs _ hbreak ih =>
    rw [length_consPiece c (pieces_ne_nil cs)]
    cases cs with
    | nil =>
      -- a line feed is a break itself
      obtain rfl : c = '\n' := Option.some.inj h
      exact absurd rfl hbreak
    | cons d ds => exact ih (by rwa [List.getLast?_cons_cons] at h)

namespace Buffer

variable {b : Buffer} {i first last : Nat}

theorem lineCount_pos (b : Buffer) : 0 < b.lineCount := by
  unfold lineCount
  split
  · next hends =>
    have htwo : 2 ≤ b.pieces.length := two_le_length_pieces (beq_iff_eq.mp hends)
    omega
  · exact length_pieces_pos b.chars

theorem lineCount_le_length_pieces (b : Buffer) : b.lineCount ≤ b.pieces.length := by
  unfold lineCount
  split
  · exact Nat.sub_le _ 1
  · exact Nat.le_refl _

/-- Each line has a text. -/
theorem exists_line (h : i < b.lineCount) : ∃ text, b.line? i = some text := by
  have hpiece : i < b.pieces.length := Nat.lt_of_lt_of_le h b.lineCount_le_length_pieces
  unfold line?
  rw [if_pos h, List.getElem?_eq_getElem hpiece]
  exact ⟨_, rfl⟩

/-- Lines of the buffer are deleted as they are given. -/
theorem deleteLines_of_lt (hle : first ≤ last) (hlast : last < b.lineCount) :
    b.deleteLines first last =
      ⟨(b.pieces.take first).flatten ++ (b.pieces.drop (last + 1)).flatten⟩ := by
  unfold deleteLines
  rw [if_neg (by omega), Nat.min_eq_left (by omega)]

end Buffer

/-! ### The cursor -/

namespace Editor

/-- There is a line for the cursor, and a place in it. -/
structure InBounds (e : Editor) : Prop where
  lines : 1 ≤ e.buffer.lineCount
  line : e.cursor.line < e.buffer.lineCount
  column : e.cursor.column ≤ e.buffer.lineLength e.cursor.line

theorem inBounds_start (id : EditorId) (b : Buffer) (path : Option String) :
    InBounds { id := id, buffer := b, cursor := ⟨0, 0⟩, path := path } :=
  ⟨b.lineCount_pos, b.lineCount_pos, Nat.zero_le _⟩

theorem inBounds_goTo (e : Editor) (line : Nat) : (e.goTo line).InBounds := by
  have hpos := e.buffer.lineCount_pos
  refine ⟨hpos, ?_, Nat.zero_le _⟩
  -- the cursor is put at the beginning of the line, or of the last one there is
  show min line (e.buffer.lineCount - 1) < e.buffer.lineCount
  omega

/-- A cursor outside of the text is put on its last line. -/
theorem inBounds_clampCursor (e : Editor) : e.clampCursor.InBounds := by
  have hpos := e.buffer.lineCount_pos
  refine ⟨hpos, ?_, Nat.min_le_right _ _⟩
  show min e.cursor.line (e.buffer.lineCount - 1) < e.buffer.lineCount
  omega

theorem inBounds_deleteLines (e : Editor) (first last : Nat) :
    (e.deleteLines first last).InBounds :=
  inBounds_clampCursor _

/-- The cursor is put on a line of the buffer itself. -/
theorem goTo_of_lt {e : Editor} {line : Nat} (h : line < e.buffer.lineCount) :
    e.goTo line = { e with cursor := ⟨line, 0⟩ } := by
  unfold goTo Cursor.toLine
  rw [Nat.min_eq_left (by omega)]

end Editor

end ModalScript
