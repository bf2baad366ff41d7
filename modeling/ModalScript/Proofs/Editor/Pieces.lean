/-
How a text is cut into pieces.

`Cut ps` says of a list of pieces that their text is cut into them: each piece but the last is read
to a line break and no further (`EndsLine`), the last one has no line break in it, and nowhere does
a carriage return meet a line feed (`Joins`), as the two would be one line break.  Each text has
exactly one such list (`pieces_eq_iff`).

So the pieces in front of a place and those behind it are cut as before when they stand alone
(`Cut.left`, `Cut.right`), and texts put one behind the other are cut as before, unless a carriage
return meets a line feed (`Cut.append`); then there is a piece less (`length_pieces_append`).
-/
import ModalScript.Proofs.Editor.Bounds

namespace ModalScript

variable {c : Char} {p cs ds es : List Char} {ps qs : List (List Char)}

/-! ### Where line breaks meet -/

/-- The first text ends in a carriage return and the second one begins with a line feed. -/
def Joins (cs ds : List Char) : Prop :=
  cs.getLast? = some '\r' ∧ ds.head? = some '\n'

instance : Decidable (Joins cs ds) :=
  inferInstanceAs (Decidable (_ ∧ _))

theorem not_joins_nil_left : ¬Joins [] ds :=
  fun h => nomatch h.1

theorem not_joins_nil_right : ¬Joins cs [] :=
  fun h => nomatch h.2

/-- Only the end of the first text counts, unless it is empty. -/
theorem joins_append_left : Joins (cs ++ ds) es ↔ Joins ds es ∨ ds = [] ∧ Joins cs es := by
  rcases ds.eq_nil_or_concat with rfl | ⟨ds, d, rfl⟩
  · simp [not_joins_nil_left]
  · simp [Joins, ← List.append_assoc]

/-- Only the beginning of the second text counts, unless it is empty. -/
theorem joins_append_right : Joins cs (ds ++ es) ↔ Joins cs ds ∨ ds = [] ∧ Joins cs es := by
  cases ds with
  | nil => simp [not_joins_nil_right]
  | cons d ds => simp [Joins]

theorem joins_cons_left : Joins (c :: cs) ds ↔ Joins cs ds ∨ cs = [] ∧ Joins [c] ds :=
  @joins_append_left [c] cs ds

theorem joins_singleton_iff : Joins [c] cs ↔ c = '\r' ∧ ∃ rest, cs = '\n' :: rest := by
  simp [Joins, List.head?_eq_some_iff]

/-- As it is said where a text is cut. -/
theorem not_joins_singleton_iff :
    ¬Joins [c] cs ↔ ∀ rest, c = '\r' → cs = '\n' :: rest → False := by
  rw [joins_singleton_iff]
  constructor
  · exact fun h rest hc hcs => h ⟨hc, rest, hcs⟩
  · exact fun h ⟨hc, rest, hcs⟩ => h rest hc hcs

/-! ### Cutting step by step -/

/-- A character that does not begin a pair is a break of its own or belongs to the next piece. -/
theorem pieces_cons (hjoins : ¬Joins [c] cs) :
    pieces (c :: cs) = if isLineBreak c then [c] :: pieces cs else consPiece c (pieces cs) := by
  rw [pieces]
  exact not_joins_singleton_iff.mp hjoins

theorem pieces_of_break (hc : isLineBreak c = true) (hjoins : ¬Joins [c] cs) :
    pieces (c :: cs) = [c] :: pieces cs := by
  rw [pieces_cons hjoins, if_pos hc]

/-- A character that breaks no line is no carriage return. -/
theorem not_joins_of_not_break (hc : ¬isLineBreak c = true) : ¬Joins [c] cs := by
  intro hjoins
  obtain ⟨rfl, -⟩ := joins_singleton_iff.mp hjoins
  exact hc rfl

theorem pieces_of_not_break (hc : ¬isLineBreak c = true) :
    pieces (c :: cs) = consPiece c (pieces cs) := by
  rw [pieces_cons (not_joins_of_not_break hc), if_neg hc]

/-- One text behind the other has the pieces of both, where the last piece of the first one goes on
with the first piece of the second one.  A carriage return and a line feed that meet are one break
instead of two. -/
theorem length_pieces_append (cs ds : List Char) :
    (pieces (cs ++ ds)).length + 1 + (if Joins cs ds then 1 else 0) =
      (pieces cs).length + (pieces ds).length := by
  fun_induction pieces cs with
  | case1 => simp [not_joins_nil_left, Nat.add_comm]
  | case2 cs ih =>
    -- the line feed of a pair has been used up, so that only what is behind it can join
    have hsame : Joins ('\r' :: '\n' :: cs) ds ↔ Joins cs ds := by
      rw [joins_cons_left, joins_cons_left]
      simp [Joins]
    simp only [List.cons_append, pieces, List.length_cons, hsame]
    omega
  | case3 c cs hpair hbreak ih =>
    by_cases hlast : cs = [] ∧ Joins [c] ds
    · -- the line feed that follows goes with this break
      obtain ⟨rfl, hjoins⟩ := hlast
      obtain ⟨rfl, rest, rfl⟩ := joins_singleton_iff.mp hjoins
      have hfeed : pieces ('\n' :: rest) = ['\n'] :: pieces rest :=
        pieces_of_break rfl (by simp [Joins])
      rw [hfeed, if_pos hjoins]
      simp only [List.cons_append, List.nil_append, pieces, List.length_cons, List.length_nil]
      omega
    · -- this break is followed by what followed it before
      have hrest : ¬Joins [c] (cs ++ ds) := by
        rw [joins_append_right]
        exact not_or.mpr ⟨not_joins_singleton_iff.mpr hpair, hlast⟩
      have hsame : Joins (c :: cs) ds ↔ Joins cs ds := by
        rw [joins_cons_left]
        exact or_iff_left hlast
      rw [List.cons_append, pieces_of_break hbreak hrest]
      simp only [List.length_cons, hsame]
      omega
  | case4 c cs _ hbreak ih =>
    have hsame : Joins (c :: cs) ds ↔ Joins cs ds := by
      rw [joins_cons_left]
      exact or_iff_left fun h => not_joins_of_not_break hbreak h.2
    rw [List.cons_append, pieces_of_not_break hbreak, length_consPiece c (pieces_ne_nil _),
      length_consPiece c (pieces_ne_nil _)]
    simp only [hsame]
    exact ih

/-! ### What is a cut -/

/-- No character is a line break. -/
def Unbroken (p : List Char) : Prop :=
  ∀ c ∈ p, ¬isLineBreak c = true

/-- The piece ends in a line break, and there is none in front of it. -/
inductive EndsLine : List Char → Prop
  | single {p : List Char} {c : Char} :
      Unbroken p → isLineBreak c = true → EndsLine (p ++ [c])
  | pair {p : List Char} : Unbroken p → EndsLine (p ++ ['\r', '\n'])

/-- The pieces are those of their text. -/
inductive Cut : List (List Char) → Prop
  | last {p : List Char} : Unbroken p → Cut [p]
  | cons {p : List Char} {ps : List (List Char)} :
      EndsLine p → ¬Joins p ps.flatten → Cut ps → Cut (p :: ps)

theorem unbroken_nil : Unbroken [] :=
  fun _ hc => absurd hc List.not_mem_nil

theorem EndsLine.ne_nil (h : EndsLine p) : p ≠ [] := by
  cases h with
  | single | pair => simp

theorem Unbroken.cons (hc : ¬isLineBreak c = true) (h : Unbroken p) : Unbroken (c :: p) :=
  List.forall_mem_cons.mpr ⟨hc, h⟩

theorem EndsLine.cons (hc : ¬isLineBreak c = true) (h : EndsLine p) : EndsLine (c :: p) := by
  cases h with
  | single hp hbreak => exact .single (hp.cons hc) hbreak
  | pair hp => exact .pair (hp.cons hc)

theorem Cut.ne_nil (h : Cut ps) : ps ≠ [] := by
  cases h with
  | last | cons => exact List.cons_ne_nil _ _

/-- A character that breaks no line goes with the first piece. -/
theorem Cut.consPiece (hc : ¬isLineBreak c = true) (h : Cut ps) : Cut (consPiece c ps) := by
  cases h with
  | last hp => exact .last (hp.cons hc)
  | cons hp hjoins hps =>
    -- the new character is not the last one of its piece, which is not empty
    refine .cons (hp.cons hc) ?_ hps
    rw [joins_cons_left]
    exact not_or.mpr ⟨hjoins, fun h => hp.ne_nil h.1⟩

theorem cut_pieces (cs : List Char) : Cut (pieces cs) := by
  fun_induction pieces cs with
  | case1 => exact .last unbroken_nil
  | case2 cs ih => exact .cons (.pair unbroken_nil) (by simp [Joins]) ih
  | case3 c cs hpair hbreak ih =>
    refine .cons (.single unbroken_nil hbreak) ?_ ih
    rw [flatten_pieces]
    exact not_joins_singleton_iff.mpr hpair
  | case4 c cs _ hbreak ih => exact ih.consPiece hbreak

/-- Text without a line break goes with the piece behind it. -/
theorem pieces_unbroken_append (hp : Unbroken p) {q : List Char} {qs : List (List Char)}
    (hcs : pieces cs = q :: qs) : pieces (p ++ cs) = (p ++ q) :: qs := by
  induction p with
  | nil => exact hcs
  | cons c p ih =>
    rw [Unbroken, List.forall_mem_cons] at hp
    rw [List.cons_append, pieces_of_not_break hp.1, ih hp.2]
    rfl

/-- A piece is read to its line break. -/
theorem EndsLine.pieces_append (hp : EndsLine p) (hjoins : ¬Joins p cs) :
    pieces (p ++ cs) = p :: pieces cs := by
  cases hp with
  | @single p c hp hbreak =>
    rw [joins_append_left] at hjoins
    rw [List.append_assoc]
    -- a break that is no pair must not become one
    exact pieces_unbroken_append hp (pieces_of_break hbreak fun h => hjoins (.inl h))
  | pair hp =>
    rw [List.append_assoc]
    exact pieces_unbroken_append hp rfl

theorem Cut.pieces_flatten (h : Cut ps) : pieces ps.flatten = ps := by
  induction h with
  | @last p hp => simpa using @pieces_unbroken_append p [] hp [] [] rfl
  | cons hp hjoins _ ih => rw [List.flatten_cons, hp.pieces_append hjoins, ih]

/-- Each text is cut in one way. -/
theorem pieces_eq_iff : pieces cs = ps ↔ Cut ps ∧ ps.flatten = cs := by
  constructor
  · rintro rfl
    exact ⟨cut_pieces cs, flatten_pieces cs⟩
  · rintro ⟨hps, rfl⟩
    exact hps.pieces_flatten

/-- What is known of a function that cuts texts at line breaks: it loses nothing, and it cuts
behind each break and nowhere else, a carriage return and a line feed being one break. -/
structure CutsLines (f : List Char → List (List Char)) : Prop where
  flatten : ∀ cs, (f cs).flatten = cs
  cut : ∀ cs, Cut (f cs)

theorem cutsLines_pieces : CutsLines pieces where
  flatten := flatten_pieces
  cut := cut_pieces

/-- There is no other such function, so that what is proved of the lines of a buffer holds for
whatever cuts its text in this way. -/
theorem CutsLines.pieces_eq {f : List Char → List (List Char)} (hf : CutsLines f) (b : Buffer) :
    f b.chars = b.pieces :=
  (pieces_eq_iff.mpr ⟨hf.cut b.chars, hf.flatten b.chars⟩).symm

/-! ### Parts of a cut text -/

/-- When the first piece is not the last one. -/
theorem cut_cons_append_iff (hqs : qs ≠ []) :
    Cut (p :: (ps ++ qs)) ↔
      EndsLine p ∧ ¬(Joins p ps.flatten ∨ ps.flatten = [] ∧ Joins p qs.flatten) ∧
        Cut (ps ++ qs) := by
  rw [← joins_append_right, ← List.flatten_append]
  constructor
  · intro h
    generalize hrest : ps ++ qs = rest at h
    cases h with
    | last => exact absurd hrest (List.append_ne_nil_of_right_ne_nil ps hqs)
    | cons hp hjoins hcut => exact ⟨hp, hjoins, hcut⟩
  · exact fun h => .cons h.1 h.2.1 h.2.2

/-- The pieces behind a place are those of the text behind it. -/
theorem Cut.right (h : Cut (ps ++ qs)) (hqs : qs ≠ []) : Cut qs := by
  induction ps with
  | nil => exact h
  | cons p ps ih => exact ih ((cut_cons_append_iff hqs).mp h).2.2

/-- The pieces in front of a place are those of the text in front of it, which has an empty piece
behind its last line break. -/
theorem Cut.left (h : Cut (ps ++ qs)) (hqs : qs ≠ []) : Cut (ps ++ [[]]) := by
  induction ps with
  | nil => exact .last unbroken_nil
  | cons p ps ih =>
    obtain ⟨hp, hjoins, hcut⟩ := (cut_cons_append_iff hqs).mp h
    refine (cut_cons_append_iff (by simp)).mpr ⟨hp, not_or.mpr ⟨?_, ?_⟩, ih hcut⟩
    · exact fun hmeet => hjoins (.inl hmeet)
    · exact fun hmeet => not_joins_nil_right hmeet.2

/-- Pieces that end in line breaks go before those of another text. -/
theorem Cut.append (hps : Cut (ps ++ [[]])) (hqs : Cut qs) (hjoins : ¬Joins ps.flatten qs.flatten) :
    Cut (ps ++ qs) := by
  induction ps with
  | nil => exact hqs
  | cons p ps ih =>
    obtain ⟨hp, hfront, hcut⟩ := (cut_cons_append_iff (by simp)).mp hps
    rw [List.flatten_cons, joins_append_left] at hjoins
    refine (cut_cons_append_iff hqs.ne_nil).mpr ⟨hp, not_or.mpr ⟨?_, ?_⟩, ih hcut ?_⟩
    · exact fun hmeet => hfront (.inl hmeet)
    · exact fun hmeet => hjoins (.inr hmeet)
    · exact fun hmeet => hjoins (.inl hmeet)

end ModalScript
