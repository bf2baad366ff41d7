/-
Cutting a text at the occurrences of a separator.

`breakOn sep cs` finds the first occurrence of `sep` and gives what stands
before and after it; `splitOn sep cs` cuts at every occurrence, from left to
right and without overlap.  `breakOn_eq_some` says that nothing is lost, and it
is what makes `splitOn` end: each further piece is shorter by the separator.
-/

namespace ModalScript.Text

/-- What stands before and after the first occurrence of `sep`. -/
def breakOn (sep : List Char) : List Char → Option (List Char × List Char)
  | [] => if sep.isEmpty then some ([], []) else none
  | c :: cs =>
    match sep.isPrefixOf? (c :: cs) with
    | some rest => some ([], rest)
    | none => (breakOn sep cs).map fun p => (c :: p.1, p.2)

theorem eq_append_of_isPrefixOf? {sep cs rest : List Char}
    (h : sep.isPrefixOf? cs = some rest) : cs = sep ++ rest := by
  induction sep generalizing cs with
  | nil => exact Option.some.inj h
  | cons a sep ih =>
    cases cs with
    | nil => cases h
    | cons c cs =>
      change (if a == c then sep.isPrefixOf? cs else none) = some rest at h
      by_cases hac : a = c
      · subst hac
        rw [if_pos BEq.rfl] at h
        rw [ih h, List.cons_append]
      · simp [hac] at h

/-- The two parts and the separator between them make up the text. -/
theorem breakOn_eq_some {sep cs front rest : List Char}
    (h : breakOn sep cs = some (front, rest)) : cs = front ++ sep ++ rest := by
  induction cs generalizing front with
  | nil =>
    simp only [breakOn] at h
    split at h
    · next hs => simp_all
    · cases h
  | cons c cs ih =>
    simp only [breakOn] at h
    split at h
    · next r hr =>
      cases h
      simpa using eq_append_of_isPrefixOf? hr
    · next hr =>
      rw [Option.map_eq_some_iff] at h
      obtain ⟨p, hp, hpe⟩ := h
      obtain ⟨front', rest'⟩ := p
      cases hpe
      rw [ih hp]
      simp

theorem length_rest_of_breakOn {sep cs front rest : List Char} (hs : sep ≠ [])
    (h : breakOn sep cs = some (front, rest)) : rest.length < cs.length := by
  have hlen := congrArg List.length (breakOn_eq_some h)
  have : 0 < sep.length := List.length_pos_iff.mpr hs
  simp only [List.length_append] at hlen
  omega

/-- The pieces between the occurrences of `sep`, from left to right; one more than there
are occurrences.  The empty separator cuts nowhere. -/
def splitOn (sep cs : List Char) : List (List Char) :=
  if _ : sep = [] then [cs]
  else
    match _ : breakOn sep cs with
    | none => [cs]
    | some (front, rest) => front :: splitOn sep rest
termination_by cs.length
decreasing_by exact length_rest_of_breakOn ‹_› ‹_›

/-- The text without the first occurrence of `part`. -/
def removeFirst (part cs : List Char) : List Char :=
  match breakOn part cs with
  | none => cs
  | some (front, rest) => front ++ rest

end ModalScript.Text
