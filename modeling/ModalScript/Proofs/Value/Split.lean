/-
Splitting and joining texts.

A text is split at a separator into the pieces between its occurrences, of which those with nothing
in them are left out; the empty separator splits it into its characters.  Joining puts the
separator back.  So what has been joined is split again, if no piece was empty and the separator is
one character that is in none of them (`parts_intercalate`), and characters are joined to the text
that they come from (`intercalate_parts`).

Main result: `Builtin.split_undoes_join`.
-/
import ModalScript.Proofs.Text.Cut
import ModalScript.Proofs.Value.Equality
import ModalScript.Script.Builtin

namespace ModalScript

/-! ### Lists of texts -/

namespace Heap

variable {h : Heap} {r r' : ListRef} {texts : List String}

/-- A list other than the new one is what it was. -/
theorem items_newList_of_ne (vs : List Value) (hr : r ≠ (h.newList vs).1) :
    (h.newList vs).2.items r = h.items r := by
  have hslot : r.slot ≠ h.lists.size := by
    intro hslot
    apply hr
    cases r
    cases hslot
    rfl
  simp [newList, items, Array.getElem?_push, hslot]

/-- Lists of the same texts are equal. -/
theorem equal_of_texts (hr : h.items r = texts.map .string) (hr' : h.items r' = texts.map .string) :
    h.equal (.list r) (.list r') = .ok true := by
  refine equalAt_succ_iff.mpr (.inr ⟨rfl, ?_, ?_⟩)
  · rw [shape, shape, hr, hr']
  · rw [elements, elements, hr, hr']
    -- the elements are scalars, which are equal as they are
    refine List.forall₂_same.mpr fun v hv => ?_
    obtain ⟨t, -, rfl⟩ := List.mem_map.mp hv
    exact equalAt_succ_iff.mpr (.inl (beq_self_eq_true t))

end Heap

namespace Builtin

variable {c : Char} {sep cs p : List Char} {ps : List (List Char)}

/-! ### The parts of a text -/

/-- At a separator that is not empty a text is cut, and the empty pieces are left out. -/
theorem parts_of_ne_nil (hsep : sep ≠ []) (cs : List Char) :
    parts cs (some sep) = (Text.splitOn sep cs).filter (· ≠ []) := by
  cases sep with
  | nil => exact absurd rfl hsep
  | cons c sep => rfl

/-- What has been joined with one character is split again. -/
theorem parts_intercalate (hps : ∀ p ∈ ps, p ≠ [] ∧ c ∉ p) :
    parts ([c].intercalate ps) (some [c]) = ps := by
  rw [parts_of_ne_nil (List.cons_ne_nil _ _), Text.splitOn_singleton]
  cases ps with
  | nil => rfl
  | cons p ps =>
    rw [List.splitOn_intercalate c (fun q hq => (hps q hq).2) (List.cons_ne_nil _ _)]
    -- no part was empty, so that none is left out
    exact List.filter_eq_self.mpr fun q hq => decide_eq_true (hps q hq).1

/-- Characters are joined to the text that they come from. -/
theorem intercalate_parts (cs : List Char) : [].intercalate (parts cs (some [])) = cs := by
  show [].intercalate (cs.map ([·])) = cs
  induction cs with
  | nil => rfl
  | cons c cs ih =>
    cases cs with
    | nil => rfl
    | cons d cs =>
      show [].intercalate ([c] :: [d] :: cs.map ([·])) = c :: d :: cs
      rw [List.intercalate_cons_cons]
      exact congrArg (c :: ·) ih

/-! ### The parts as texts -/

/-- The texts of the parts. -/
def partTexts (t separator : String) : List String :=
  (parts t.toList (some separator.toList)).map String.ofList

theorem partTexts_intercalate {texts : List String} (htexts : ∀ t ∈ texts, t ≠ "" ∧ c ∉ t.toList) :
    partTexts ((String.singleton c).intercalate texts) (.singleton c) = texts := by
  rw [partTexts, String.toList_intercalate, String.toList_singleton, parts_intercalate,
    map_ofList_toList]
  intro p hp
  obtain ⟨t, ht, rfl⟩ := List.mem_map.mp hp
  exact ⟨mt String.toList_eq_nil_iff.mp (htexts t ht).1, (htexts t ht).2⟩

theorem intercalate_partTexts (t : String) : "".intercalate (partTexts t "") = t := by
  rw [← String.toList_inj, String.toList_intercalate, partTexts, map_toList_ofList]
  exact intercalate_parts t.toList

/-- The pieces that a text is cut into, with the empty ones. -/
def pieces (t separator : String) : List String :=
  (Text.splitOn separator.toList t.toList).map String.ofList

theorem intercalate_pieces (t separator : String) :
    separator.intercalate (pieces t separator) = t := by
  rw [← String.toList_inj, String.toList_intercalate, pieces, map_toList_ofList,
    Text.intercalate_splitOn]

theorem not_infix_of_mem_pieces {t separator piece : String} (hseparator : separator ≠ "")
    (hpiece : piece ∈ pieces t separator) : ¬separator.toList <:+: piece.toList := by
  obtain ⟨p, hp, rfl⟩ := List.mem_map.mp hpiece
  rw [String.toList_ofList]
  exact Text.not_infix_of_mem_splitOn (mt String.toList_eq_nil_iff.mp hseparator) hp

theorem partTexts_of_ne_empty {t separator : String} (hseparator : separator ≠ "") :
    partTexts t separator = (pieces t separator).filter (· ≠ "") := by
  rw [partTexts, parts_of_ne_nil (mt String.toList_eq_nil_iff.mp hseparator), pieces,
    List.filter_map]
  refine congrArg _ (List.filter_congr fun p _ => ?_)
  simp [String.ofList_eq_empty_iff]

/-- No part is empty, and none has the separator in it. -/
theorem of_mem_partTexts {t separator part : String} (hseparator : separator ≠ "")
    (hpart : part ∈ partTexts t separator) :
    part ≠ "" ∧ ¬separator.toList <:+: part.toList := by
  rw [partTexts_of_ne_empty hseparator, List.mem_filter] at hpart
  exact ⟨of_decide_eq_true hpart.2, not_infix_of_mem_pieces hseparator hpart.1⟩

/-! ### The two functions -/

/-- `join` puts the text of the separator between the texts of the elements. -/
theorem run_join {sep : Value} {separator : String} (hsep : sep.toText = .ok separator)
    {r : ListRef} {s : State} {texts : List String}
    (hr : s.session.heap.items r = texts.map .string) (call : Caller) (site : CallSite) :
    Builtin.run call .join [.list r, sep] site s =
      (.value (.string (separator.intercalate texts)), s) := by
  have htexts : (s.session.heap.items r).map (joinText s.session.heap) =
      texts.map String.toList := by
    rw [hr, List.map_map]
    rfl
  have hjoined : String.ofList (separated separator (texts.map String.toList)) =
      separator.intercalate texts := by
    rw [← String.toList_inj, String.toList_ofList, String.toList_intercalate, separated]
  show Interp.ofExcept (joined s.session.heap (.list r) (some sep)) s = _
  simp only [joined, hsep]
  show (Outcome.value (Value.string (String.ofList (separated separator _))), s) = _
  rw [htexts, hjoined]

/-- `split` makes a list of the parts. -/
theorem run_split {text sep : Value} {t separator : String} (htext : text.toText = .ok t)
    (hsep : sep.toText = .ok separator) (call : Caller) (site : CallSite) (s : State) :
    let new := s.session.heap.newList ((partTexts t separator).map .string)
    Builtin.run call .split [text, sep] site s =
      (.value (.list new.1), { s with session := { s.session with heap := new.2 } }) := by
  intro new
  have hnew : new = s.session.heap.newList
      ((parts t.toList (some separator.toList)).map fun p => .string (String.ofList p)) := by
    show s.session.heap.newList ((partTexts t separator).map .string) = _
    rw [partTexts, List.map_map]
    rfl
  show Interp.onHeap (splitText text (some sep)) s = _
  rw [hnew, splitText, htext]
  simp only [hsep]
  rfl

/-- **`split` undoes `join`.**  The state is any state, and so is the later one in which the joined
text is split.

A list of strings that are not empty and do not contain a character is joined with this character
between them, and the text is split at it into a list that is equal to it.  A text that is split
into its characters is got back by joining them.  A text that is split at a separator that is not
empty is cut into pieces that make it up with the separator between them; none of them contains the
separator, and those that are not empty are the elements of the list. -/
theorem split_undoes_join (call : Caller) (site : CallSite) (s : State) :
    (∀ (l : ListRef) (sep : Value) (c : Char) (texts : List String),
      s.session.heap.items l = texts.map .string → sep.toText = .ok (.singleton c) →
      (∀ t ∈ texts, t ≠ "" ∧ c ∉ t.toList) →
      ∃ text, Builtin.run call .join [.list l, sep] site s = (.value (.string text), s) ∧
        ∀ later : State, later.session.heap.items l = s.session.heap.items l →
          ∃ r h, Builtin.run call .split [.string text, sep] site later =
              (.value (.list r), { later with session := { later.session with heap := h } }) ∧
            h.items r = texts.map .string ∧ h.equal (.list r) (.list l) = .ok true) ∧
    (∀ (v : Value) (t : String), v.toText = .ok t →
      ∃ r after, Builtin.run call .split [v, .string ""] site s = (.value (.list r), after) ∧
        Builtin.run call .join [.list r, .string ""] site after = (.value (.string t), after)) ∧
    ∀ (v sep : Value) (t separator : String), v.toText = .ok t → sep.toText = .ok separator →
      separator ≠ "" →
      ∃ (r : ListRef) (h : Heap) (ps : List String), Builtin.run call .split [v, sep] site s =
          (.value (.list r), { s with session := { s.session with heap := h } }) ∧
        separator.intercalate ps = t ∧ h.items r = (ps.filter (· ≠ "")).map .string ∧
        ∀ p, .string p ∈ h.items r → p ≠ "" ∧ ¬separator.toList <:+: p.toList := by
  refine ⟨?_, ?_, ?_⟩
  · intro l sep c texts hl hsep htexts
    refine ⟨_, run_join hsep hl call site, fun later hlater => ?_⟩
    have hitems := Heap.items_newList_self later.session.heap (texts.map .string)
    refine ⟨_, _, run_split rfl hsep call site later, ?_, ?_⟩
    · rw [partTexts_intercalate htexts]
      exact hitems
    · rw [partTexts_intercalate htexts]
      -- where there is no list yet, an empty one is read, and the new one may come to stand there
      by_cases hr : l = (later.session.heap.newList (texts.map .string)).1
      · exact Heap.equal_of_texts hitems (hr ▸ hitems)
      · refine Heap.equal_of_texts hitems ?_
        rw [Heap.items_newList_of_ne _ hr, hlater, hl]
  · intro v t hv
    refine ⟨_, _, run_split hv rfl call site s, ?_⟩
    rw [run_join rfl (Heap.items_newList_self _ _), intercalate_partTexts]
  · intro v sep t separator hv hsep hseparator
    have hitems := Heap.items_newList_self s.session.heap ((partTexts t separator).map .string)
    refine ⟨_, _, pieces t separator, run_split hv hsep call site s, intercalate_pieces t separator,
      ?_, fun p hp => ?_⟩
    · rw [hitems, partTexts_of_ne_empty hseparator]
    · rw [hitems, List.mem_map_of_injective fun _ _ => Value.string.inj] at hp
      exact of_mem_partTexts hseparator hp

/-- Two texts and none, joined with the text of an integer between them, and a text with
occurrences of the separator that overlap. -/
theorem split_undoes_join_of_overlapping :
    let call : Caller := fun _ _ _ => .exhausted
    let h : Heap := ⟨#[[.string "a b", .string "ü"], []], #[]⟩
    let s : State := { (default : State) with session := { (default : Session) with heap := h } }
    (∀ n < 2, ∃ text r h',
      Builtin.run call .join [.list ⟨n⟩, .integer 7] {} s = (.value (.string text), s) ∧
      Builtin.run call .split [.string text, .integer 7] {} s =
        (.value (.list r), { s with session := { s.session with heap := h' } }) ∧
      h'.equal (.list r) (.list ⟨n⟩) = .ok true) ∧
    (∃ r after,
      Builtin.run call .split [.string "a7ü", .string ""] {} s = (.value (.list r), after) ∧
      Builtin.run call .join [.list r, .string ""] {} after = (.value (.string "a7ü"), after)) ∧
    ∃ r h', Builtin.run call .split [.string "aaab", .string "aa"] {} s =
        (.value (.list r), { s with session := { s.session with heap := h' } }) ∧
      ∀ p, .string p ∈ h'.items r → p ≠ "" ∧ ¬['a', 'a'] <:+: p.toList := by
  intro call h s
  obtain ⟨hjoined, hcharacters, hpieces⟩ := split_undoes_join call {} s
  refine ⟨fun n hn => ?_, hcharacters (.string "a7ü") "a7ü" rfl, ?_⟩
  · -- the second list is empty, and its text is the empty one
    have hlists : ∀ n < 2, ∃ texts : List String,
        h.items ⟨n⟩ = texts.map .string ∧ ∀ t ∈ texts, t ≠ "" ∧ '7' ∉ t.toList := by
      intro n hn
      obtain rfl | rfl : n = 0 ∨ n = 1 := by omega
      · exact ⟨["a b", "ü"], rfl, by decide⟩
      · exact ⟨[], rfl, List.forall_mem_nil _⟩
    obtain ⟨texts, hitems, htexts⟩ := hlists n hn
    obtain ⟨text, hjoin, hsplit⟩ := hjoined ⟨n⟩ (.integer 7) '7' texts hitems (by decide) htexts
    obtain ⟨r, h', hsplit, -, hequal⟩ := hsplit s rfl
    exact ⟨text, r, h', hjoin, hsplit, hequal⟩
  · obtain ⟨r, h', ps, hsplit, -, -, hparts⟩ :=
      hpieces (.string "aaab") (.string "aa") "aaab" "aa" rfl rfl (by decide)
    exact ⟨r, h', hsplit, hparts⟩

end Builtin

end ModalScript
