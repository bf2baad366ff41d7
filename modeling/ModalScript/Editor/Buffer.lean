/-
The text of an editor, seen as lines.

A text is cut behind each line break, and the pieces together make up the text
(`flatten_pieces`).  Line breaks are LF, CR, CR LF taken as one, and the characters VT, FF,
NEL, LS and PS.  Only LF counts as a terminator: it is not part of a line's text, and the
empty piece behind a final LF is no line.
-/

namespace ModalScript

/-- Whether a character alone is a line break. -/
def isLineBreak (c : Char) : Bool :=
  let n := c.toNat
  (0x0A ≤ n && n ≤ 0x0D) || n == 0x85 || n == 0x2028 || n == 0x2029

/-- Puts a character in front of the first piece. -/
def consPiece (c : Char) : List (List Char) → List (List Char)
  | [] => [[c]]
  | p :: ps => (c :: p) :: ps

/-- The text cut behind each line break.  The last piece has none and may be empty. -/
def pieces : List Char → List (List Char)
  | [] => [[]]
  | '\r' :: '\n' :: cs => ['\r', '\n'] :: pieces cs
  | c :: cs => if isLineBreak c then [c] :: pieces cs else consPiece c (pieces cs)

theorem flatten_consPiece (c : Char) (ps : List (List Char)) :
    (consPiece c ps).flatten = c :: ps.flatten := by
  cases ps <;> rfl

/-- The pieces make up the text. -/
theorem flatten_pieces (cs : List Char) : (pieces cs).flatten = cs := by
  fun_induction pieces cs with
  | case1 => rfl
  | case2 cs ih => simp [ih]
  | case3 c cs _ _ ih => simp [ih]
  | case4 c cs _ _ ih => simp [flatten_consPiece, ih]

theorem pieces_ne_nil (cs : List Char) : pieces cs ≠ [] := by
  fun_induction pieces cs with
  | case1 | case2 | case3 => simp
  | case4 c cs _ _ ih =>
    cases h : pieces cs with
    | nil => exact absurd h ih
    | cons p ps => simp [consPiece]

/-! ### Buffers -/

/-- The text of an editor. -/
structure Buffer where
  chars : List Char
  deriving DecidableEq, Inhabited

namespace Buffer

/-- The buffer that holds a text. -/
def ofString (s : String) : Buffer :=
  ⟨s.toList⟩

/-- The text as a whole. -/
def text (b : Buffer) : String :=
  String.ofList b.chars

/-- The number of characters. -/
def length (b : Buffer) : Nat :=
  b.chars.length

/-- The text cut behind each line break. -/
def pieces (b : Buffer) : List (List Char) :=
  ModalScript.pieces b.chars

/-- Whether the text ends in a line feed. -/
def endsInLineFeed (b : Buffer) : Bool :=
  b.chars.getLast? == some '\n'

/-- The number of lines.  The empty piece behind a final line feed is no line. -/
def lineCount (b : Buffer) : Nat :=
  if b.endsInLineFeed then b.pieces.length - 1 else b.pieces.length

/-- A piece without the line feed at its end. -/
def stripLineFeed (p : List Char) : List Char :=
  if p.getLast? = some '\n' then p.dropLast else p

/-- The text of a line, counted from 0. -/
def line? (b : Buffer) (i : Nat) : Option String :=
  if i < b.lineCount then (b.pieces[i]?).map fun p => String.ofList (stripLineFeed p) else none

/-- The number of characters of a line. -/
def lineLength (b : Buffer) (i : Nat) : Nat :=
  ((b.pieces[i]?).map fun p => (stripLineFeed p).length).getD 0

/-- The buffer without the lines from `first` to `last` and their line breaks. -/
def deleteLines (b : Buffer) (first last : Nat) : Buffer :=
  if b.lineCount ≤ first ∨ last < first then b
  else
    let last := min last (b.lineCount - 1)
    ⟨(b.pieces.take first).flatten ++ (b.pieces.drop (last + 1)).flatten⟩

end Buffer

end ModalScript
