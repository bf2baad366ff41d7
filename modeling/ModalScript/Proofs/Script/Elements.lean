/-
Assigning an element of a container.

An assignment to `base[key]` evaluates the new value, the base and the key, and then the key is
looked at up to three times: to find the place, to read the old content for an operator, and to
write.  All three mean the same place of the same container (`Heap.Selects`), since what an
operator does in between only adds containers.  Everything that can be refused is refused
before the write (`Heap.Refuses`), and the write changes the content of one place
(`Heap.Updated`).

Main result: `Command.assign_element`.
-/
import ModalScript.Proofs.Script.Lasting
import ModalScript.Proofs.Value.Growth

namespace ModalScript

/-- A place in a container. -/
inductive Slot where
  | item (i : Nat)
  | entry (key : String)
  deriving DecidableEq

namespace Heap

/-! ### Places -/

/-- What stands at a place of a container, if anything does. -/
def content (h : Heap) : Value → Slot → Option Value
  | .list r, .item i => (h.items r)[i]?
  | .dict r, .entry key => (h.table r).get? key
  | _, _ => none

/-- The heap in which something else stands at a place of a container. -/
def put (h : Heap) (container : Value) (slot : Slot) (x : Value) : Heap :=
  match container, slot with
  | .list r, .item i => h.setItems r ((h.items r).set i x)
  | .dict r, .entry key => h.setTable r ((h.table r).insert key x)
  | _, _ => h

/-- The place of a container that is meant by a key: one of the items of a list, counted from
either end, or the entry of a dictionary, be it there or not. -/
inductive Selects (h : Heap) : Value → Value → Slot → Prop
  | item {r : ListRef} {key : Value} {n : Int64} {i : Nat} (hnumber : key.toNumber = .ok n)
      (hplace : Value.resolveIndex n (h.items r).length = some i) :
      Selects h (.list r) key (.item i)
  | entry {r : DictRef} {key : Value} {name : String} (htext : key.toText = .ok name) :
      Selects h (.dict r) key (.entry name)

/-- The value that an assignment writes over an old content, and the heap when it is there: the
new value itself, or what the operator makes of the old and the new one. -/
inductive Yields (h : Heap) (op : LetOperator) (old? : Option Value) (new : Value) :
    Value → Heap → Prop
  | plain (hop : op.binary? = none) : Yields h op old? new new h
  | combined {b : BinaryOp} {old x : Value} {h' : Heap} (hop : op.binary? = some b)
      (hold : old? = some old) (hbinary : Value.binary b old new h = .ok (x, h')) :
      Yields h op old? new x h'

/-- Why an element is not assigned. -/
inductive Refuses (h : Heap) (op : LetOperator) (container key new : Value) : EvalError → Prop
  | base (hcontainer : container.isContainer = false) :
      Refuses h op container key new (container.mismatch .list)
  | number {r : ListRef} {e : EvalError} (hlist : container = .list r)
      (hnumber : key.toNumber = .error e) : Refuses h op container key new e
  | range {r : ListRef} {n : Int64} (hlist : container = .list r) (hnumber : key.toNumber = .ok n)
      (hplace : Value.resolveIndex n (h.items r).length = none) :
      Refuses h op container key new (.indexOutOfRange n)
  | text {r : DictRef} {e : EvalError} (hdict : container = .dict r)
      (htext : key.toText = .error e) : Refuses h op container key new e
  | missing {r : DictRef} {name : String} (hdict : container = .dict r)
      (htext : key.toText = .ok name) (hop : op.binary? ≠ none)
      (hmissing : (h.table r).get? name = none) : Refuses h op container key new (.missingKey name)
  | operator {slot : Slot} {b : BinaryOp} {old : Value} {e : EvalError}
      (hslot : h.Selects container key slot) (hop : op.binary? = some b)
      (hold : h.content container slot = some old) (hbinary : Value.binary b old new h = .error e) :
      Refuses h op container key new e

/-- One place of a container has another content, and all else is the same. -/
structure Updated (h h' : Heap) (container : Value) (slot : Slot) (x : Value) : Prop where
  has : ∀ c, h.Has c → h'.Has c
  others : ∀ c, c ≠ container → h.SameAt h' c
  length : ∀ r, container = .list r → (h'.items r).length = (h.items r).length
  content : ∀ slot', h'.content container slot' =
    if slot' = slot then some x else h.content container slot'

variable {h h' : Heap} {container key new x : Value} {slot : Slot} {op : LetOperator}

theorem lt_of_resolveIndex {n : Int64} {length i : Nat}
    (hplace : Value.resolveIndex n length = some i) : i < length := by
  simp only [Value.resolveIndex, Option.ite_none_right_eq_some, Option.some.injEq] at hplace
  omega

theorem Selects.isContainer (hslot : h.Selects container key slot) : container.isContainer := by
  cases hslot <;> rfl

/-- An index answers what stands at the place that it means. -/
theorem Selects.index {v : Value} (hslot : h.Selects container key slot)
    (hcontent : h.content container slot = some v) : Value.index h container key = .ok v := by
  cases hslot with
  | @item r key n i hnumber hplace =>
    have hitem : (h.items r)[i]? = some v := hcontent
    simp only [Value.index, hnumber, hplace, hitem, bind, Except.bind, Option.bind_some]
  | @entry r key name htext =>
    have hentry : (h.table r).get? name = some v := hcontent
    simp only [Value.index, htext, hentry, bind, Except.bind]

theorem index_of_missing {r : DictRef} {name : String} (htext : key.toText = .ok name)
    (hmissing : (h.table r).get? name = none) :
    Value.index h (.dict r) key = .error (.missingKey name) := by
  simp only [Value.index, htext, hmissing, bind, Except.bind]

/-- The place in a list that a key means is there. -/
theorem Selects.content_eq_some {r : ListRef} (hslot : h.Selects (.list r) key slot) :
    ∃ v, h.content (.list r) slot = some v := by
  cases hslot with
  | item hnumber hplace =>
    exact ⟨_, List.getElem?_eq_getElem (lt_of_resolveIndex hplace)⟩

/-! ### Writing -/

/-- Setting an item changes the content of its place alone. -/
theorem updated_setItems {r : ListRef} {i : Nat} (hr : h.HasList r) (hi : i < (h.items r).length)
    (x : Value) : h.Updated (h.setItems r ((h.items r).set i x)) (.list r) (.item i) x := by
  have hself : (h.setItems r ((h.items r).set i x)).items r = (h.items r).set i x :=
    items_setItems_self _ hr
  refine ⟨fun c hc => ?_, fun c hne => ?_, fun r' hr' => ?_, fun slot => ?_⟩
  · cases c with
    | list r' => exact Nat.lt_of_lt_of_eq hc Array.size_setIfInBounds.symm
    | _ => exact hc
  · cases c with
    -- another list, since it is another value
    | list r' => exact items_setItems_ne h _ fun heq => hne (congrArg _ heq)
    | dict r' => exact table_setItems h _ _ r'
    | _ => trivial
  · cases hr'
    rw [hself, List.length_set]
  · cases slot with
    | item j =>
      show ((h.setItems r _).items r)[j]? =
        if Slot.item j = .item i then some x else (h.items r)[j]?
      rw [hself]
      by_cases hj : j = i
      · rw [hj, if_pos rfl, List.getElem?_set_self hi]
      · rw [if_neg fun heq => hj (Slot.item.inj heq), List.getElem?_set_ne (Ne.symm hj)]
    | entry name => rfl

/-- Setting an entry changes the content of its place alone. -/
theorem updated_setTable {r : DictRef} (hr : h.HasDict r) (name : String) (x : Value) :
    h.Updated (h.setTable r ((h.table r).insert name x)) (.dict r) (.entry name) x := by
  have hself : (h.setTable r ((h.table r).insert name x)).table r = (h.table r).insert name x :=
    table_setTable_self _ hr
  refine ⟨fun c hc => ?_, fun c hne => ?_, fun r' hr' => (by cases hr'), fun slot => ?_⟩
  · cases c with
    | dict r' => exact Nat.lt_of_lt_of_eq hc Array.size_setIfInBounds.symm
    | _ => exact hc
  · cases c with
    | list r' => exact items_setTable h _ _ r'
    | dict r' => exact table_setTable_ne h _ fun heq => hne (congrArg _ heq)
    | _ => trivial
  · cases slot with
    | item j => rfl
    | entry name' =>
      show ((h.setTable r _).table r).get? name' =
        if Slot.entry name' = .entry name then some x else (h.table r).get? name'
      rw [hself, Dict.get?_insert]
      simp only [Slot.entry.injEq]

/-- The write changes the content of the place that a key means. -/
theorem updated_put (hhas : h.Has container) (hslot : h.Selects container key slot) (x : Value) :
    h.Updated (h.put container slot x) container slot x := by
  cases hslot with
  | item hnumber hplace => exact updated_setItems hhas (lt_of_resolveIndex hplace) x
  | entry htext => exact updated_setTable hhas _ x

/-- An operator may make containers, but changes none. -/
theorem Yields.grown {old? : Option Value} (hyields : h.Yields op old? new x h') : h.Grown h' := by
  cases hyields with
  | plain => exact .refl h
  | @combined b old _ _ hop hold hbinary => exact Value.grows_binary b old new h x h' hbinary

/-- A key means the same place of a list that has been there, in a heap with more containers. -/
theorem Selects.grown (hslot : h.Selects container key slot) (hgrown : h.Grown h')
    (hhas : h.Has container) : h'.Selects container key slot := by
  have hsame := hgrown.same container hhas
  cases hslot with
  | @item r key n i hnumber hplace =>
    have hitems : h'.items r = h.items r := hsame
    exact .item hnumber (by rw [hitems]; exact hplace)
  | entry htext => exact .entry htext

/-- After the write the index answers what has been written. -/
theorem Updated.index (hupdated : h.Updated h' container slot x)
    (hslot : h.Selects container key slot) : Value.index h' container key = .ok x := by
  have hcontent : h'.content container slot = some x := by
    rw [hupdated.content, if_pos rfl]
  refine Selects.index ?_ hcontent
  cases hslot with
  -- the list is as long as it was, so that the number still means the place
  | item hnumber hplace => exact .item hnumber (by rw [hupdated.length _ rfl]; exact hplace)
  | entry htext => exact .entry htext

end Heap

namespace Command

open Heap

variable {s : State} {op : LetOperator} {container key new x : Value} {slot : Slot} {h' : Heap}

/-! ### Running an assignment -/

/-- An assignment has no range, and its line is not blank. -/
theorem validate_assign (target : LetTarget) (op : LetOperator) (value : Expr) (lineCount : Nat) :
    validate (assign target op value).name (assign target op value).descriptor
      (assign target op value).line lineCount = .ok () := by
  -- the sign of the assignment is part of its line
  have hsymbol : '=' ∈ op.symbol.toList := by
    cases op with
    | assign | concat => decide
    | arithmetic op => cases op <;> decide
  have htrimmed : '=' ∈ (assign target op value).line.trimmed := by
    refine Text.mem_trim_of_not_blank ?_ (by decide)
    rw [line, String.toList_ofList]
    exact List.mem_append_left _ (List.mem_append_right _ (List.mem_cons_of_mem _ hsymbol))
  have hargument : (assign target op value).line.hasArgument = true := by
    rw [CommandLine.hasArgument, Bool.not_eq_true', List.isEmpty_eq_false_iff]
    exact List.ne_nil_of_mem htrimmed
  show validateArgument .required (assign target op value).line = .ok ()
  unfold validateArgument
  rw [hargument]

/-- A plain assignment writes the new value, and does not read the old one. -/
theorem combine_of_plain (hop : op.binary? = none) (old : Interp Value) (new : Value) (s : State) :
    combine op old new s = (.value new, s) := by
  unfold combine
  rw [hop]
  rfl

/-- An operator reads the old element first. -/
theorem combine_of_binary {b : BinaryOp} (hop : op.binary? = some b) (container key new : Value)
    (s : State) : combine op (elementOf container key) new s =
      (Interp.ofExcept (Value.index s.session.heap container key) >>= fun old =>
        Interp.onHeap (Value.binary b old new)) s := by
  unfold combine
  rw [hop]
  rfl

/-- What is to be written can be computed, and this changes no container, or the assignment is
refused. -/
theorem combine_cases (hslot : s.session.heap.Selects container key slot) (op : LetOperator)
    (new : Value) :
    (∃ x h', s.session.heap.Yields op (s.session.heap.content container slot) new x h' ∧
      combine op (elementOf container key) new s =
        (.value x, { s with session := { s.session with heap := h' } })) ∨
      ∃ e, s.session.heap.Refuses op container key new e ∧
        combine op (elementOf container key) new s = (.failed (.eval e), s) := by
  cases hop : op.binary? with
  | none => exact .inl ⟨new, _, .plain hop, combine_of_plain hop _ new s⟩
  | some b =>
    rw [combine_of_binary hop]
    cases hold : s.session.heap.content container slot with
    | some old =>
      rw [hslot.index hold]
      show (∃ x h', _ ∧ Interp.onHeap (Value.binary b old new) s = _) ∨
        ∃ e, _ ∧ Interp.onHeap (Value.binary b old new) s = _
      unfold Interp.onHeap
      cases hbinary : Value.binary b old new s.session.heap with
      | ok r => exact .inl ⟨r.1, r.2, .combined hop rfl hbinary, rfl⟩
      | error e => exact .inr ⟨e, .operator hslot hop hold hbinary, rfl⟩
    | none =>
      cases hslot with
      | item hnumber hplace =>
        -- the place that a number means is never empty
        obtain ⟨v, hv⟩ := (Selects.item hnumber hplace).content_eq_some
        rw [hv] at hold
        cases hold
      | @entry r key name htext =>
        rw [index_of_missing htext hold]
        exact .inr ⟨.missingKey name, .missing rfl htext (by rw [hop]; exact Option.some_ne_none b)
          hold, rfl⟩

/-- The element that the key means is written. -/
theorem assignElement_of_selects (hslot : s.session.heap.Selects container key slot)
    (op : LetOperator) (new : Value) :
    assignElement op container key new s =
      (combine op (elementOf container key) new >>= fun x =>
        .changeSession fun t => { t with heap := t.heap.put container slot x }) s := by
  cases hslot with
  | item hnumber hplace =>
    simp only [assignElement, hnumber, bind, Interp.andThen, Interp.ofExcept, Interp.ret,
      Interp.readExcept, hplace]
    rfl
  | entry htext =>
    rw [assignElement, htext]
    rfl

/-- The key means a place of the container, or the assignment is refused. -/
theorem selects_cases (op : LetOperator) (container key new : Value) (s : State) :
    (∃ slot, s.session.heap.Selects container key slot) ∨
      ∃ e, s.session.heap.Refuses op container key new e ∧
        assignElement op container key new s = (.failed (.eval e), s) := by
  cases container with
  | list r =>
    cases hnumber : key.toNumber with
    | error e =>
      refine .inr ⟨e, .number rfl hnumber, ?_⟩
      rw [assignElement, hnumber]
      rfl
    | ok n =>
      cases hplace : Value.resolveIndex n (s.session.heap.items r).length with
      | none =>
        refine .inr ⟨_, .range rfl hnumber hplace, ?_⟩
        simp only [assignElement, hnumber, bind, Interp.andThen, Interp.ofExcept, Interp.ret,
          Interp.readExcept, hplace]
        rfl
      | some i => exact .inl ⟨.item i, .item hnumber hplace⟩
  | dict r =>
    cases htext : key.toText with
    | error e =>
      refine .inr ⟨e, .text rfl htext, ?_⟩
      rw [assignElement, htext]
      rfl
    | ok name => exact .inl ⟨.entry name, .entry htext⟩
  | _ => exact .inr ⟨_, .base rfl, rfl⟩

/-- After its expressions an assignment to an element is run on their values. -/
theorem execute_assign_index {call : Caller} {s s₁ s₂ s₃ : State} {base place value : Expr}
    (hnew : value.evaluate call s = (.value new, s₁))
    (hbase : base.evaluate call s₁ = (.value container, s₂))
    (hkey : place.evaluate call s₂ = (.value key, s₃)) (op : LetOperator) :
    (assign (.index base place) op value).execute call s =
      assignElement op container key new s₃ := by
  unfold execute
  rw [validate_assign]
  show (value.evaluate call >>= fun new => assignTo call op new (.index base place)) s = _
  rw [Interp.bind_of_value hnew, assignTo, Interp.bind_of_value hbase,
    Interp.bind_of_value hkey]

/-- **Assigning an element updates one place.**  The three expressions have values: the new one,
the base and the key, in this order.  The containers may be shared in any way, and the base may
be among its own elements and operands; if it is a container, it is one of the heap.

Either the key means a place of the container.  Then the new value, or what the operator makes
of the content of this place and the new value, is written there.  Nothing else has changed but
that the operator may have made new containers: all other containers and all other places of
this one are the same, and a list is as long as before.  Every index that reaches the container
with the same key answers what has been written.

Or the assignment is refused: the base is no container, the key does not fit or is out of range,
an operator finds no entry, or it fails on the operands.  Then the state is the one behind the
three expressions. -/
theorem assign_element {call : Caller} {s s₁ s₂ s₃ : State} {base place value : Expr}
    (hnew : value.evaluate call s = (.value new, s₁))
    (hbase : base.evaluate call s₁ = (.value container, s₂))
    (hkey : place.evaluate call s₂ = (.value key, s₃))
    (hhas : s₃.session.heap.Has container) (op : LetOperator) :
    let h := s₃.session.heap
    let run := (assign (.index base place) op value).execute call s
    (∃ slot x h₁ h₂, h.Selects container key slot ∧
      h.Yields op (h.content container slot) new x h₁ ∧
      run = (.value (), { s₃ with session := { s₃.session with heap := h₂ } }) ∧
      h.Grown h₁ ∧ h₁.Updated h₂ container slot x ∧
      ∀ other, other.same container → Value.index h₂ other key = .ok x) ∨
    ∃ e, h.Refuses op container key new e ∧ run = (.failed (.eval e), s₃) := by
  intro h run
  have hrun : run = assignElement op container key new s₃ :=
    execute_assign_index hnew hbase hkey op
  rw [hrun]
  obtain ⟨slot, hslot⟩ | ⟨e, hrefuses, hfailed⟩ := selects_cases op container key new s₃
  · rw [assignElement_of_selects hslot]
    obtain ⟨x, h₁, hyields, hvalue⟩ | ⟨e, hrefuses, hfailed⟩ := combine_cases hslot op new
    · have hgrown := hyields.grown
      -- the key is looked at again to write, in the heap behind the operator
      have hslot₁ := hslot.grown hgrown hhas
      have hupdated := updated_put (hgrown.has _ hhas) hslot₁ x
      refine .inl ⟨slot, x, h₁, _, hslot, hyields, ?_, hgrown, hupdated, fun other hother => ?_⟩
      · rw [Interp.bind_of_value hvalue]
        rfl
      · -- whatever is the same container has the same reference
        rw [Value.same_comm] at hother
        rw [← Value.eq_of_same_of_container hother hslot.isContainer]
        exact hupdated.index hslot₁
    · refine .inr ⟨e, hrefuses, ?_⟩
      show (combine op (elementOf container key) new).andThen _ s₃ = _
      unfold Interp.andThen
      rw [hfailed]
  · exact .inr ⟨e, hrefuses, hfailed⟩

/-- The first element of a list, which is reached through the second one, the list itself, and
counted from the end; there is no third element. -/
theorem assign_element_of_itself :
    let call : Caller := fun _ _ _ => .exhausted
    let state (first : Value) : State :=
      { (default : State) with
        session :=
          { (default : Session) with
            heap := ⟨#[[first, .list ⟨0⟩]], #[]⟩
            vars := { Variables.initial with globals := Dict.empty.insert "l" (.list ⟨0⟩) } } }
    let s := state (.integer 1)
    let base : Expr := .index (.variable ⟨some .globals, "l"⟩) (.integer 1)
    let run (place : Int64) : Outcome Unit × State :=
      (assign (.index base (.integer place)) (.arithmetic .add) (.integer 5)).execute call s
    s.session.heap.Has (.list ⟨0⟩) ∧
      run (-2) = (.value (), state (.integer 6)) ∧
      (∃ (slot : Slot) (h₁ : Heap), s.session.heap.Selects (.list ⟨0⟩) (.integer (-2)) slot ∧
        h₁.Updated (state (.integer 6)).session.heap (.list ⟨0⟩) slot (.integer 6)) ∧
      run 2 = (.failed (.eval (.indexOutOfRange 2)), s) ∧
      s.session.heap.Refuses (.arithmetic .add) (.list ⟨0⟩) (.integer 2) (.integer 5)
        (.indexOutOfRange 2) := by
  intro call state s base run
  have hhas : s.session.heap.Has (.list ⟨0⟩) := Nat.zero_lt_one
  have hnew : (Expr.integer 5).evaluate call s = (.value (.integer 5), s) := rfl
  have hbase : base.evaluate call s = (.value (.list ⟨0⟩), s) := rfl
  have hkey (place : Int64) : (Expr.integer place).evaluate call s = (.value (.integer place), s) :=
    rfl
  have hupdates : run (-2) = (.value (), state (.integer 6)) :=
    (execute_assign_index hnew hbase (hkey (-2)) _).trans rfl
  have hfails : run 2 = (.failed (.eval (.indexOutOfRange 2)), s) :=
    (execute_assign_index hnew hbase (hkey 2) _).trans rfl
  refine ⟨hhas, hupdates, ?_, hfails, ?_⟩
  · obtain ⟨slot, x, h₁, h₂, hslot, -, hrun, -, hupdated, hindex⟩ | ⟨e, -, hrun⟩ :=
      assign_element hnew hbase (hkey (-2)) hhas (.arithmetic .add)
    · -- the state behind the run determines the heap of the theorem
      have hheap : (state (.integer 6)).session.heap = h₂ :=
        congrArg (fun r : Outcome Unit × State => r.2.session.heap) (hupdates.symm.trans hrun)
      subst hheap
      have hx : Value.integer 6 = x := Except.ok.inj (hindex (.list ⟨0⟩) rfl)
      subst hx
      exact ⟨slot, h₁, hslot, hupdated⟩
    · cases (congrArg Prod.fst hupdates).symm.trans (congrArg Prod.fst hrun)
  · obtain ⟨slot, x, h₁, h₂, -, -, hrun, -⟩ | ⟨e, hrefuses, hrun⟩ :=
      assign_element hnew hbase (hkey 2) hhas (.arithmetic .add)
    · cases (congrArg Prod.fst hfails).symm.trans (congrArg Prod.fst hrun)
    · cases (congrArg Prod.fst hfails).symm.trans (congrArg Prod.fst hrun)
      exact hrefuses

end Command

end ModalScript
