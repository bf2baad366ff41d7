/-
What the written form of a value tells.

A written form may be followed by a comma or a closing bracket, or by nothing (`Json.Ends`).
Two written forms with something behind them that are the same text are those of values with
the same shapes on all paths, and end at the same place (`Heap.Reveals`).  Each part of the
grammar has a lemma of its own: a string ends at the first quote that is not doubled, a key and
the name of a function at the first quote, an integer where it ends in JSON too, and the parts
of a container are taken off one after the other.  Which kind of value comes next is seen from
the first character.

Nothing doubles the quotes in keys and in the names of functions, floats are written in digits
as well, and containers that are nested too deep are left out.  `Heap.Legible` tells the values
in which nothing of this happens.

Main result: `string_unambiguous`.
-/
import ModalScript.Proofs.Json.RoundTrip
import ModalScript.Proofs.Value.Equality
import ModalScript.Script.Builtin

namespace ModalScript

open Json (Ends ends_cons)

namespace Text

/-! ### Where a part ends -/

/-- A text without quotes ends at the first quote. -/
theorem append_inj_of_no_quote {cs cs' rest rest' : List Char} (hcs : '\'' ∉ cs)
    (hcs' : '\'' ∉ cs') (heq : cs ++ '\'' :: rest = cs' ++ '\'' :: rest') :
    cs = cs' ∧ rest = rest' := by
  induction cs generalizing cs' with
  | nil =>
    cases cs' with
    | nil => exact ⟨rfl, (List.cons.inj heq).2⟩
    | cons c' cs' => exact absurd ((List.cons.inj heq).1 ▸ List.mem_cons_self) hcs'
  | cons c cs ih =>
    cases cs' with
    | nil => exact absurd ((List.cons.inj heq).1.symm ▸ List.mem_cons_self) hcs
    | cons c' cs' =>
      obtain ⟨hfirst, hrests⟩ := List.cons.inj heq
      obtain ⟨hsame, hrest⟩ := ih (fun hc => hcs (List.mem_cons_of_mem c hc))
        (fun hc => hcs' (List.mem_cons_of_mem c' hc)) hrests
      exact ⟨by rw [hfirst, hsame], hrest⟩

theorem doubleQuotes_cons_quote (cs : List Char) :
    doubleQuotes ('\'' :: cs) = '\'' :: '\'' :: doubleQuotes cs :=
  rfl

theorem doubleQuotes_cons {c : Char} (hc : c ≠ '\'') (cs : List Char) :
    doubleQuotes (c :: cs) = c :: doubleQuotes cs := by
  rw [doubleQuotes, List.flatMap_cons, if_neg hc]
  rfl

/-- A quote that is not doubled is not the first of a text with doubled quotes. -/
theorem quote_ne_doubleQuotes_append {rest : List Char} (hrest : '\'' ∉ rest.head?) (c : Char)
    (cs ds : List Char) : '\'' :: rest ≠ doubleQuotes (c :: cs) ++ ds := by
  intro heq
  by_cases hc : c = '\''
  · rw [hc, doubleQuotes_cons_quote] at heq
    rw [(List.cons.inj heq).2] at hrest
    exact hrest rfl
  · rw [doubleQuotes_cons hc] at heq
    exact hc (List.cons.inj heq).1.symm

/-- Text with doubled quotes ends at the first quote that is not doubled. -/
theorem doubleQuotes_append_inj {cs cs' rest rest' : List Char} (hrest : '\'' ∉ rest.head?)
    (hrest' : '\'' ∉ rest'.head?)
    (heq : doubleQuotes cs ++ '\'' :: rest = doubleQuotes cs' ++ '\'' :: rest') :
    cs = cs' ∧ rest = rest' := by
  induction cs generalizing cs' with
  | nil =>
    cases cs' with
    | nil => exact ⟨rfl, (List.cons.inj heq).2⟩
    | cons c' cs' => exact absurd heq (quote_ne_doubleQuotes_append hrest c' cs' _)
  | cons c cs ih =>
    cases cs' with
    | nil => exact absurd heq.symm (quote_ne_doubleQuotes_append hrest' c cs _)
    | cons c' cs' =>
      -- a quote stands for two characters and any other character for one
      by_cases hc : c = '\'' <;> by_cases hc' : c' = '\''
      · rw [hc, hc', doubleQuotes_cons_quote, doubleQuotes_cons_quote] at heq
        obtain ⟨hcs, hsame⟩ := ih (List.cons.inj (List.cons.inj heq).2).2
        exact ⟨by rw [hc, hc', hcs], hsame⟩
      · rw [hc, doubleQuotes_cons_quote, doubleQuotes_cons hc'] at heq
        exact absurd (List.cons.inj heq).1.symm hc'
      · rw [hc', doubleQuotes_cons_quote, doubleQuotes_cons hc] at heq
        exact absurd (List.cons.inj heq).1 hc
      · rw [doubleQuotes_cons hc, doubleQuotes_cons hc'] at heq
        obtain ⟨hfirst, hrests⟩ := List.cons.inj heq
        obtain ⟨hcs, hsame⟩ := ih hrests
        exact ⟨by rw [hfirst, hcs], hsame⟩

end Text

namespace Heap

/-! ### Taking off parts -/

/-- When two texts are the same together with what closes them, then `P` holds and the same
text closes them. -/
def Reveals (cs cs' : List Char) (P : Prop) : Prop :=
  ∀ {rest rest'}, Ends rest → Ends rest' → cs ++ rest = cs' ++ rest' → P ∧ rest = rest'

section Parts

variable {α β : Type} {f : α → List Char} {g : β → List Char} {R : α → β → Prop}
variable {xs : List α} {ys : List β} {left close : Char}

/-- Parts behind the first one, each behind a comma. -/
def laterParts (f : α → List Char) (xs : List α) : List Char :=
  xs.flatMap fun x => ',' :: ' ' :: f x

/-- Parts with commas between them are the first one and the later ones. -/
theorem intercalate_map_cons (f : α → List Char) (x : α) (xs : List α) :
    [',', ' '].intercalate ((x :: xs).map f) = f x ++ laterParts f xs := by
  induction xs generalizing x with
  | nil => rw [List.map_singleton, List.intercalate_singleton, laterParts, List.flatMap_nil,
      List.append_nil]
  | cons y ys ih =>
    rw [List.map_cons, List.map_cons, List.intercalate_cons_cons, ← List.map_cons, ih,
      List.append_assoc]
    rfl

/-- Behind the first part there is a comma or the closing bracket. -/
theorem ends_laterParts (hclose : close = ']' ∨ close = '\x7d') (f : α → List Char)
    (xs : List α) (rest : List Char) : Ends (laterParts f xs ++ close :: rest) := by
  cases xs with
  | nil => exact ends_cons (.inr hclose) rest
  | cons x xs => exact ends_cons (.inl rfl) _

/-- The parts up to the closing bracket are taken off one after the other. -/
theorem reveals_laterParts (hclose : close = ']' ∨ close = '\x7d')
    (hparts : ∀ x ∈ xs, ∀ y ∈ ys, Reveals (f x) (g y) (R x y)) {rest rest' : List Char}
    (heq : laterParts f xs ++ close :: rest = laterParts g ys ++ close :: rest') :
    List.Forall₂ R xs ys ∧ rest = rest' := by
  -- the character behind a part tells whether another one follows
  have hcomma : close ≠ ',' := by rcases hclose with rfl | rfl <;> decide
  induction xs generalizing ys with
  | nil =>
    cases ys with
    | nil => exact ⟨.nil, (List.cons.inj heq).2⟩
    | cons y ys => exact absurd (List.cons.inj heq).1 hcomma
  | cons x xs ih =>
    cases ys with
    | nil => exact absurd (List.cons.inj heq).1.symm hcomma
    | cons y ys =>
      simp only [laterParts, List.flatMap_cons, List.cons_append, List.append_assoc,
        List.cons.injEq, true_and] at heq
      obtain ⟨hfirst, hlater⟩ := hparts x List.mem_cons_self y List.mem_cons_self
        (ends_laterParts hclose f xs rest) (ends_laterParts hclose g ys rest') heq
      obtain ⟨hrest, hsame⟩ := ih
        (fun x' hx y' hy => hparts x' (List.mem_cons_of_mem x hx) y' (List.mem_cons_of_mem y hy))
        hlater
      exact ⟨.cons hfirst hrest, hsame⟩

/-- A container is told by its parts, if none of them begins like its end. -/
theorem reveals_bracketed (hclose : close = ']' ∨ close = '\x7d')
    (hf : ∀ x ∈ xs, ∃ c cs, f x = c :: cs ∧ c ≠ close)
    (hg : ∀ y ∈ ys, ∃ c cs, g y = c :: cs ∧ c ≠ close)
    (hparts : ∀ x ∈ xs, ∀ y ∈ ys, Reveals (f x) (g y) (R x y)) :
    Reveals (bracketed left close (xs.map f)) (bracketed left close (ys.map g))
      (List.Forall₂ R xs ys) := by
  intro rest rest' hrest hrest' heq
  simp only [bracketed, List.cons_append, List.append_assoc, List.nil_append, List.cons.injEq,
    true_and] at heq
  cases xs with
  | nil =>
    cases ys with
    | nil => exact ⟨.nil, (List.cons.inj heq).2⟩
    | cons y ys =>
      obtain ⟨c, cs, hc, hne⟩ := hg y List.mem_cons_self
      rw [intercalate_map_cons, hc] at heq
      -- only one of the two is closed at once
      exact absurd (List.cons.inj heq).1.symm hne
  | cons x xs =>
    cases ys with
    | nil =>
      obtain ⟨c, cs, hc, hne⟩ := hf x List.mem_cons_self
      rw [intercalate_map_cons, hc] at heq
      exact absurd (List.cons.inj heq).1 hne
    | cons y ys =>
      rw [intercalate_map_cons, intercalate_map_cons, List.append_assoc, List.append_assoc] at heq
      obtain ⟨hfirst, hlater⟩ := hparts x List.mem_cons_self y List.mem_cons_self
        (ends_laterParts hclose f xs rest) (ends_laterParts hclose g ys rest') heq
      obtain ⟨hrest, hsame⟩ := reveals_laterParts hclose
        (fun x' hx y' hy => hparts x' (List.mem_cons_of_mem x hx) y' (List.mem_cons_of_mem y hy))
        hlater
      exact ⟨.cons hfirst hrest, hsame⟩

/-- An entry is told by its key and its value. -/
theorem reveals_writeEntry {key key' : String} {cs cs' : List Char} {P : Prop}
    (hkey : '\'' ∉ key.toList) (hkey' : '\'' ∉ key'.toList) (hvalue : Reveals cs cs' P) :
    Reveals (writeEntry key cs) (writeEntry key' cs') (key = key' ∧ P) := by
  intro rest rest' hrest hrest' heq
  simp only [writeEntry, List.cons_append, List.append_assoc, List.nil_append, List.cons.injEq,
    true_and] at heq
  obtain ⟨hsame, hvalues⟩ := Text.append_inj_of_no_quote hkey hkey' heq
  simp only [List.cons.injEq, true_and] at hvalues
  obtain ⟨hP, hrests⟩ := hvalue hrest hrest' hvalues
  exact ⟨⟨String.toList_inj.mp hsame, hP⟩, hrests⟩

end Parts

/-! ### Values -/

/-- The kind of value that is written with a character at its front. -/
def kindOfFirst (c : Char) : Option Kind :=
  if c = '\'' then some .string
  else if c = 'f' then some .func
  else if c = '[' then some .list
  else if c = '\x7b' then some .dict
  else if c = '-' ∨ c.isDigit then some .number
  else none

/-- The written form of a value shows the whole value: it is made of integers, strings,
functions and containers, all of these stand less than `n` levels deep, and in no name of a
function and in no key there is a quote. -/
structure Legible (h : Heap) (n : Nat) (v : Value) : Prop where
  nested : ∀ p c, h.follow v p = some c → c.isContainer → p.length < n
  noFloat : ∀ x, ¬ h.Reaches v (.float x)
  names : ∀ name, h.Reaches v (.funcref name) → '\'' ∉ name.toList
  keys : ∀ r, h.Reaches v (.dict r) → ∀ key ∈ (h.table r).keys, '\'' ∉ key.toList

variable {h h' : Heap} {v w : Value} {n : Nat}

theorem Legible.element (hv : h.Legible (n + 1) v) (hw : w ∈ h.elements v) : h.Legible n w where
  nested p c hp hc := by
    -- a path in the element is one step longer in the container
    obtain ⟨i, hi⟩ := follow_element hw
    exact Nat.lt_of_succ_lt_succ (hv.nested (i :: p) c ((hi p).trans hp) hc)
  noFloat x hx := hv.noFloat x (hx.of_element hw)
  names name hname := hv.names name (hname.of_element hw)
  keys r hr := hv.keys r (hr.of_element hw)

/-- At nesting zero nothing is shown of what is in a container, so that no container is shown. -/
theorem Legible.not_container (hv : h.Legible 0 v) : v.isContainer = false := by
  cases hcontainer : v.isContainer with
  | false => rfl
  | true => exact absurd (hv.nested [] v rfl hcontainer) (Nat.not_lt_zero _)

theorem kindOfFirst_digit {c : Char} (hc : c.isDigit) : kindOfFirst c = some .number := by
  have hdigits : ∀ n < 10, kindOfFirst n.digitChar = some .number := by decide
  obtain ⟨n, hn, rfl⟩ := Decimal.exists_digitChar hc
  exact hdigits n hn

/-- The first character of a written form tells the kind of the value. -/
theorem writeAt_eq_cons (h : Heap) (n : Nat) (hv : ∀ x, v ≠ .float x) :
    ∃ c cs, h.writeAt n v = c :: cs ∧ kindOfFirst c = some v.kind := by
  cases v with
  | integer a =>
    rw [writeAt]
    rcases Decimal.toList_text a with ⟨m, -, htext⟩ | ⟨m, -, -, htext⟩
    · obtain ⟨c, cs, hcs, hc⟩ := Decimal.exists_digit m
      exact ⟨c, cs, htext.trans hcs, kindOfFirst_digit hc⟩
    · -- a negative integer begins with its sign
      exact ⟨'-', _, htext, rfl⟩
  | float x => exact absurd rfl (hv x)
  | list r | dict r => cases n <;> exact ⟨_, _, rfl, rfl⟩
  | string s | funcref name =>
    rw [writeAt]
    exact ⟨_, _, rfl, rfl⟩

theorem Legible.ne_float (hv : h.Legible n v) (x : Float) : v ≠ .float x :=
  fun hx => hv.noFloat x (hx ▸ .refl h v)

/-- A written form does not begin with a closing bracket. -/
theorem Legible.exists_cons (hv : h.Legible n v) {close : Char}
    (hclose : close = ']' ∨ close = '\x7d') : ∃ c cs, h.writeAt n v = c :: cs ∧ c ≠ close := by
  obtain ⟨c, cs, hcs, hkind⟩ := writeAt_eq_cons h n hv.ne_float
  refine ⟨c, cs, hcs, fun hc => ?_⟩
  have hnone : kindOfFirst close = none := by rcases hclose with rfl | rfl <;> rfl
  rw [hc, hnone] at hkind
  cases hkind

/-- Values with the same written form have the same kind. -/
theorem kind_eq_of_append {rest rest' : List Char} (hv : ∀ x, v ≠ .float x)
    (hw : ∀ x, w ≠ .float x) (heq : h.writeAt n v ++ rest = h'.writeAt n w ++ rest') :
    w.kind = v.kind := by
  obtain ⟨c, cs, hcs, hc⟩ := writeAt_eq_cons h n hv
  obtain ⟨d, ds, hds, hd⟩ := writeAt_eq_cons h' n hw
  rw [hcs, hds] at heq
  rw [(List.cons.inj heq).1] at hc
  exact Option.some.inj (hd.symm.trans hc)

/-- What may follow a written form does not begin with a quote. -/
theorem quote_notMem_of_ends {rest : List Char} (hrest : Ends rest) :
    '\'' ∉ rest.head? := by
  intro hquote
  rcases hrest _ hquote with (h | h | h) | h <;> cases h

/-- Integers are written as in JSON, where they are read again. -/
theorem reveals_integer (a b : Int64) :
    Reveals (Decimal.text a).toList (Decimal.text b).toList (a = b) := by
  intro rest rest' hrest hrest' heq
  have hread := Json.valueWith_integer none a hrest
  rw [show (Json.integer a).text ++ rest = (Json.integer b).text ++ rest' from heq,
    Json.valueWith_integer none b hrest'] at hread
  cases hread
  exact ⟨rfl, rfl⟩

/-- Strings are told by their written forms. -/
theorem reveals_string (s t : String) :
    Reveals (Text.quoted s.toList) (Text.quoted t.toList) (s = t) := by
  intro rest rest' hrest hrest' heq
  simp only [Text.quoted, List.cons_append, List.append_assoc, List.nil_append, List.cons.injEq,
    true_and] at heq
  obtain ⟨htext, hsame⟩ := Text.doubleQuotes_append_inj (quote_notMem_of_ends hrest)
    (quote_notMem_of_ends hrest') heq
  exact ⟨String.toList_inj.mp htext, hsame⟩

theorem funcrefText_append (cs rest : List Char) :
    Value.funcrefText cs ++ rest = "function('".toList ++ (cs ++ '\'' :: ')' :: rest) := by
  have hend : "')".toList = ['\'', ')'] := by decide
  unfold Value.funcrefText
  rw [hend, List.append_assoc, List.append_assoc, List.cons_append, List.cons_append,
    List.nil_append]

/-- Functions are told by their written forms if there are no quotes in their names. -/
theorem reveals_funcref {name name' : String} (hname : '\'' ∉ name.toList)
    (hname' : '\'' ∉ name'.toList) :
    Reveals (Value.funcrefText name.toList) (Value.funcrefText name'.toList) (name = name') := by
  intro rest rest' hrest hrest' heq
  rw [funcrefText_append, funcrefText_append, List.append_cancel_left_eq] at heq
  obtain ⟨htext, hsame⟩ := Text.append_inj_of_no_quote hname hname' heq
  exact ⟨String.toList_inj.mp htext, (List.cons.inj hsame).2⟩

theorem sameShapes_of_not_container (hv : v.isContainer = false) : h.SameShapes v h' v := by
  rw [sameShapes_iff, shape_of_not_container hv, shape_of_not_container hv,
    elements_of_not_container hv, elements_of_not_container hv]
  exact ⟨rfl, .nil⟩

/-- A value that is no container is told by its written form, as its kind is. -/
theorem reveals_scalar (hv : h.Legible n v) (hw : h'.Legible n w)
    (hcontainer : v.isContainer = false) :
    Reveals (h.writeAt n v) (h'.writeAt n w) (h.SameShapes v h' w) := by
  intro rest rest' hrest hrest' heq
  have hkind : w.kind = v.kind := kind_eq_of_append hv.ne_float hw.ne_float heq
  have hsame : v = w ∧ rest = rest' := by
    cases v with
    | integer a =>
      cases w with
      | integer b =>
        rw [writeAt, writeAt] at heq
        exact (reveals_integer a b hrest hrest' heq).imp_left (congrArg _)
      | _ => cases hkind
    | float x => exact absurd rfl (hv.ne_float x)
    | string s =>
      cases w with
      | string t =>
        rw [writeAt, writeAt] at heq
        exact (reveals_string s t hrest hrest' heq).imp_left (congrArg _)
      | _ => cases hkind
    | list r | dict r => cases hcontainer
    | funcref name =>
      cases w with
      | funcref name' =>
        rw [writeAt, writeAt] at heq
        have hname := hv.names name (.refl h _)
        have hname' := hw.names name' (.refl h' _)
        exact (reveals_funcref hname hname' hrest hrest' heq).imp_left (congrArg _)
      | _ => cases hkind
  obtain ⟨rfl, hrests⟩ := hsame
  exact ⟨sameShapes_of_not_container hcontainer, hrests⟩

/-- A written form tells the shapes on all paths, whatever closes it. -/
theorem reveals_writeAt (hv : h.Legible n v) (hw : h'.Legible n w) :
    Reveals (h.writeAt n v) (h'.writeAt n w) (h.SameShapes v h' w) := by
  induction n generalizing v w with
  -- nothing of a container is written at nesting zero, where there is none
  | zero => exact reveals_scalar hv hw hv.not_container
  | succ n ih =>
    -- the kinds agree since the texts begin alike; then the parts are taken off
    cases v with
    | list r =>
      intro rest rest' hrest hrest' heq
      have hkind := kind_eq_of_append hv.ne_float hw.ne_float heq
      cases w with
      | list r' =>
        have hitems (x : Value) (hx : x ∈ h.items r) := hv.element hx
        have hitems' (y : Value) (hy : y ∈ h'.items r') := hw.element hy
        rw [writeAt, writeAt] at heq
        obtain ⟨hparts, hsame⟩ := reveals_bracketed (.inl rfl)
          (fun x hx => (hitems x hx).exists_cons (.inl rfl))
          (fun y hy => (hitems' y hy).exists_cons (.inl rfl))
          (fun x hx y hy => ih (hitems x hx) (hitems' y hy)) hrest hrest' heq
        refine ⟨sameShapes_iff.mpr ⟨?_, hparts⟩, hsame⟩
        exact congrArg Shape.list hparts.length_eq.symm
      | _ => cases hkind
    | dict r =>
      intro rest rest' hrest hrest' heq
      have hkind := kind_eq_of_append hv.ne_float hw.ne_float heq
      cases w with
      | dict r' =>
        have hvalues (e : String × Value) (he : e ∈ (h.table r).entries) : h.Legible n e.2 :=
          hv.element (List.mem_map_of_mem he)
        have hvalues' (e : String × Value) (he : e ∈ (h'.table r').entries) : h'.Legible n e.2 :=
          hw.element (List.mem_map_of_mem he)
        have hkey (e : String × Value) (he : e ∈ (h.table r).entries) : '\'' ∉ e.1.toList :=
          hv.keys r (.refl h _) e.1 (List.mem_map_of_mem he)
        have hkey' (e : String × Value) (he : e ∈ (h'.table r').entries) : '\'' ∉ e.1.toList :=
          hw.keys r' (.refl h' _) e.1 (List.mem_map_of_mem he)
        rw [writeAt, writeAt] at heq
        obtain ⟨hparts, hsame⟩ := reveals_bracketed (.inr rfl)
          (fun e _ => ⟨'\'', _, rfl, by decide⟩) (fun e _ => ⟨'\'', _, rfl, by decide⟩)
          (fun e he e' he' =>
            reveals_writeEntry (hkey e he) (hkey' e' he') (ih (hvalues e he) (hvalues' e' he')))
          hrest hrest' heq
        obtain ⟨hkeys, helements⟩ :=
          (forall₂_entries_iff (R := fun x y => h.SameShapes x h' y)).mp hparts
        exact ⟨sameShapes_iff.mpr ⟨congrArg Shape.dict hkeys, helements⟩, hsame⟩
      | _ => cases hkind
    | _ => exact reveals_scalar hv hw rfl

end Heap

/-- `string()` answers the written form of its argument. -/
theorem Builtin.run_string (call : Caller) (v : Value) (site : CallSite) (s : State) :
    Builtin.run call .string [v] site s = (.value (.string (s.session.heap.write v)), s) :=
  rfl

/-- **`string()` is unambiguous.**  The values are made of integers, strings, functions and
containers, all containers stand less than `nestingLimit` levels deep, and no function name and
no key has a quote in it; strings may hold anything.  They may stand in different heaps.

Then `string()` answers the same text for both if and only if they have the same shapes on all
paths, that is, lists of the same lengths, dictionaries with the same keys and the same scalars
at the same places. -/
theorem string_unambiguous {s t : State} {v w : Value}
    (hv : s.session.heap.Legible nestingLimit v) (hw : t.session.heap.Legible nestingLimit w)
    (call : Caller) (site : CallSite) :
    ∃ text text' : String,
      Builtin.run call .string [v] site s = (.value (.string text), s) ∧
      Builtin.run call .string [w] site t = (.value (.string text'), t) ∧
      (text = text' ↔ s.session.heap.SameShapes v t.session.heap w) := by
  refine ⟨_, _, Builtin.run_string call v site s, Builtin.run_string call w site t, ?_, ?_⟩
  · intro hwrite
    have heq := String.ofList_inj.mp hwrite
    exact (Heap.reveals_writeAt hv hw Json.ends_nil Json.ends_nil (congrArg (· ++ []) heq)).1
  · exact fun hshapes => hshapes.write.symm

/-- A string that looks like the end of one string and the start of another one, in a list, is
written otherwise than two strings; two lists with the same contents are written alike. -/
theorem string_unambiguous_of_quotes :
    let entry : Dict Value := Dict.ofList [("k", .funcref "F")]
    let h : Heap := ⟨#[[.string "a', 'b", .dict ⟨0⟩], [.string "a', 'b", .dict ⟨0⟩],
      [.string "a", .string "b", .dict ⟨0⟩]], #[entry]⟩
    (∀ n < 3, h.Legible nestingLimit (.list ⟨n⟩)) ∧
      h.write (.list ⟨0⟩) = "['a'', ''b', \x7b'k': function('F')\x7d]" ∧
      h.write (.list ⟨0⟩) = h.write (.list ⟨1⟩) ∧ h.SameShapes (.list ⟨0⟩) h (.list ⟨1⟩) ∧
      h.write (.list ⟨0⟩) ≠ h.write (.list ⟨2⟩) := by
  intro entry h
  have hlegible : ∀ n < 3, h.Legible nestingLimit (.list ⟨n⟩) := by
    intro n hn
    have hcontents (u : Value) (hu : h.Reaches (.list ⟨n⟩) u) :
        u = .dict ⟨0⟩ ∨ u = .funcref "F" ∨ u.kind = .string ∨ u.kind = .list :=
      hu.of_contents
        (P := fun u => u = .dict ⟨0⟩ ∨ u = .funcref "F" ∨ u.kind = .string ∨ u.kind = .list)
        (by decide) (by decide) (.inr (.inr (.inr rfl)))
    have hshallow : h.Shallow 3 (.list ⟨n⟩) := by
      have helements : ∀ w ∈ h.elements (.dict ⟨0⟩), h.elements w = [] := by decide
      have hitems : ∀ n < 3, ∀ w ∈ h.items ⟨n⟩, w = .dict ⟨0⟩ ∨ h.elements w = [] := by decide
      rw [Heap.shallow_succ_iff]
      intro u hu
      rw [Heap.shallow_succ_iff]
      intro w hw
      rw [Heap.shallow_succ_iff]
      obtain rfl | hnothing := hitems n hn u hu
      · rw [helements w hw]
        exact List.forall_mem_nil _
      · rw [hnothing] at hw
        cases hw
    refine ⟨fun p c hp _ => (hshallow p c hp).trans (by decide), ?_, ?_, ?_⟩
    · intro x hx
      rcases hcontents _ hx with hx | hx | hx | hx <;> cases hx
    · intro name hname
      obtain hname | hname | hname | hname := hcontents _ hname
      · cases hname
      · cases hname
        decide
      · cases hname
      · cases hname
    · intro r hr
      obtain hr | hr | hr | hr := hcontents _ hr
      · cases hr
        decide
      · cases hr
      · cases hr
      · cases hr
  let s : State := { (default : State) with session := { (default : Session) with heap := h } }
  let call : Caller := fun _ _ _ => .exhausted
  have htold (n m : Nat) (hn : n < 3) (hm : m < 3) :
      h.write (.list ⟨n⟩) = h.write (.list ⟨m⟩) ↔ h.SameShapes (.list ⟨n⟩) h (.list ⟨m⟩) := by
    obtain ⟨text, text', htext, htext', htold⟩ :=
      string_unambiguous (s := s) (t := s) (hlegible n hn) (hlegible m hm) call {}
    cases htext
    cases htext'
    exact htold
  have hsame : h.write (.list ⟨0⟩) = h.write (.list ⟨1⟩) := by rfl
  refine ⟨hlegible, by decide +kernel, hsame, (htold 0 1 (by decide) (by decide)).mp hsame, ?_⟩
  intro heq
  have hshape := ((htold 0 2 (by decide) (by decide)).mp heq).shape
  cases hshape

end ModalScript
