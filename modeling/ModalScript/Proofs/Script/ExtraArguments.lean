/-
The list of the surplus arguments.

A variadic function finds its surplus arguments one by one in `a:1`, `a:2` and so on, their
number in `a:0`, and the list of them in `a:000`.  The names stay bound to the same values as
long as the function runs.  But the list is shared, as all lists are: whoever holds it may add
an element to it, or assign one of its elements, and neither is refused.

Nothing else can become of it.  A relation between the elements of a list before and after is a
`Course` if it is reflexive and transitive (`course_turns`), and then it holds of a run if it
holds whenever an element is assigned or added, or if the run does not do that.

Main result: `callFunction_surplus`.  That the list may well differ from the surplus arguments
is `items_ne_surplus_of_add`.
-/
import ModalScript.Proofs.Script.Arguments
import ModalScript.Proofs.Script.Course

namespace ModalScript

/-! ### Changes of a list -/

/-- The list is still there, and its elements before and after are related. -/
def State.Turns (P : List Value → List Value → Prop) (q : ListRef) (s t : State) : Prop :=
  s.session.heap.HasList q →
    t.session.heap.HasList q ∧ P (s.session.heap.items q) (t.session.heap.items q)

/-- A command that is run in a state means to assign an element of the list. -/
def Command.Sets (call : Caller) (q : ListRef) (c : Command) (s : State) : Prop :=
  ∃ base place op value v s₁ s₂, c = .assign (.index base place) op value ∧
    value.evaluate call s = (.value v, s₁) ∧ base.evaluate call s₁ = (.value (.list q), s₂)

/-- The function that is called comes to a command which means to assign an element of the
list. -/
def Request.Sets (q : ListRef) (call : Caller) (fuel : Nat) (r : Request) (s : State) : Prop :=
  ∃ c t, r.Comes call fuel s c t ∧ c.Sets call q t

/-- The call adds an element to the list. -/
def Request.Adds (q : ListRef) (r : Request) (s : State) : Prop :=
  Callee.ofName s r.name = .builtin .add ∧ ∃ item, r.args = [.list q, item]

/-- The call assigns or adds an element of the list. -/
def Request.Changes (q : ListRef) (call : Caller) (fuel : Nat) (r : Request) (s : State) : Prop :=
  r.Sets q call fuel s ∨ r.Adds q s

/-- No command to which the statements come means to assign an element of the list. -/
def Spares (q : ListRef) (call : Caller) (fuel : Nat) (mode : Mode) (sts : List Statement)
    (s : State) : Prop :=
  Holds call fuel (fun c t => ¬ c.Sets call q t) mode sts s

/-- A function passes a state without calls for which `G` holds, and itself it means to assign no
element of the list on its way. -/
def Function.PassesWithout (G : Caller → Nat → Request → State → Prop) (q : ListRef) (n : Nat)
    (f : Function) (span : LineSpan) (u t : State) : Prop :=
  ∀ p, f.Passes (guarded G p n) n (Spares q (guarded G p n) n) span u t

section Turns

variable {P : List Value → List Value → Prop} {q : ListRef} (hrefl : ∀ vs, P vs vs)

include hrefl

theorem State.turns_setItems {r : ListRef} {vs : List Value} (s : State)
    (hr : r = q → P (s.session.heap.items q) vs) :
    s.Turns P q
      { s with session := { s.session with heap := s.session.heap.setItems r vs } } := by
  intro hq
  constructor
  · show q.slot < (s.session.heap.lists.setIfInBounds r.slot vs).size
    rw [Array.size_setIfInBounds]
    exact hq
  · show P _ ((s.session.heap.setItems r vs).items q)
    by_cases hqr : q = r
    · subst hqr
      rw [Heap.items_setItems_self vs hq]
      exact hr rfl
    · rw [Heap.items_setItems_ne _ _ hqr]
      exact hrefl _

/-- What becomes of a list is a course. -/
theorem course_turns (htrans : ∀ vs ws xs, P vs ws → P ws xs → P vs xs) :
    Course (State.Turns P q) where
  refl s hq := ⟨hq, hrefl _⟩
  trans h h' hq :=
    have ⟨hq₁, hP⟩ := h hq
    have ⟨hq₂, hP'⟩ := h' hq₁
    ⟨hq₂, htrans _ _ _ hP hP'⟩
  apart {s t} _ hlists hq := by
    obtain ⟨hq', hitems⟩ := hlists q hq
    rw [hitems]
    exact ⟨hq', hrefl _⟩

theorem Command.allowed_turns {call : Caller} {c : Command} {s : State}
    (hset : (∀ vs i w, P vs (vs.set i w)) ∨ ¬ c.Sets call q s) :
    c.Allowed (State.Turns P q) call s where
  deleting _ _ _ hq := ⟨hq, hrefl _⟩
  assigning {base place op value v r s₁ s₂} hc hvalue hbase t i w := by
    refine State.turns_setItems hrefl t fun hr => ?_
    subst hr
    rcases hset with hset | hset
    · exact hset _ i w
    · exact absurd ⟨base, place, op, value, v, s₁, s₂, hc, hvalue, hbase⟩ hset

theorem Request.allowed_turns {call : Caller} {fuel : Nat} {r : Request} {s : State}
    (hset : (∀ vs i w, P vs (vs.set i w)) ∨ ¬ r.Sets q call fuel s)
    (hadd : (∀ vs v, P vs (vs ++ [v])) ∨ ¬ r.Adds q s) :
    r.Allowed (State.Turns P q) call fuel s where
  body {c t} hc :=
    Command.allowed_turns hrefl (hset.imp_right fun hset hsets => hset ⟨c, t, hc, hsets⟩)
  adding {list item} hcallee hargs := by
    cases list with
    | list r' =>
      refine State.turns_setItems hrefl s fun hr' => ?_
      subst hr'
      rcases hadd with hadd | hadd
      · exact hadd _ item
      · exact absurd ⟨hcallee, item, hargs⟩ hadd
    | _ => exact fun hq => ⟨hq, hrefl _⟩

variable {G : Caller → Nat → Request → State → Prop} {n : Nat} {f : Function} {span : LineSpan}
  {u t : State}

/-- What becomes of a list on the way to a state that is passed, when no element of it is
assigned. -/
theorem Function.PassesWithout.turns (htrans : ∀ vs ws xs, P vs ws → P ws xs → P vs xs)
    (hset : ∀ call fuel r s, r.Sets q call fuel s → G call fuel r s)
    (hadd : (∀ vs v, P vs (vs ++ [v])) ∨ ∀ call fuel r s, r.Adds q s → G call fuel r s)
    (h : f.PassesWithout G q n span u t) : u.Turns P q t := by
  have hE : Course (State.Turns P q) := course_turns hrefl htrans
  have hcalls := hE.guarded (fun call fuel r s hr => Request.allowed_turns hrefl
    (.inr fun hsets => hr (hset call fuel r s hsets))
    (hadd.imp_right fun hadd hadds => hr (hadd call fuel r s hadds))) n
  -- it makes no difference where the calls for which `G` holds lead: here they are cut off
  refine (hE.carries hcalls).passes (fun mode sts s hspares c t' hc => ?_)
    (h fun _ _ _ _ => .exhausted)
  exact hE.command hcalls (Command.allowed_turns hrefl (.inr (hspares c t' hc)))

end Turns

/-- A list never loses an element. -/
theorem length_le_of_passes {q : ListRef} {n : Nat} {f : Function} {span : LineSpan}
    {u t : State} (hq : u.session.heap.HasList q)
    (h : f.Passes (callFunction n) n Anything span u t) :
    (u.session.heap.items q).length ≤ (t.session.heap.items q).length := by
  let P (vs ws : List Value) : Prop := vs.length ≤ ws.length
  have hrefl (vs : List Value) : P vs vs := Nat.le_refl vs.length
  have hset (vs : List Value) (i : Nat) (w : Value) : P vs (vs.set i w) :=
    Nat.le_of_eq List.length_set.symm
  have hadd (vs : List Value) (v : Value) : P vs (vs ++ [v]) :=
    (List.prefix_append vs [v]).length_le
  have hE : Course (State.Turns P q) := course_turns hrefl fun _ _ _ => Nat.le_trans
  -- nothing has to be left out, since a list gets longer or keeps its length in any case
  have hcalls := hE.callFunction
    (fun call fuel r s => Request.allowed_turns hrefl (.inl hset) (.inl hadd)) n
  exact ((hE.carries hcalls).passes
    (fun mode sts s _ c t' _ => hE.command hcalls (Command.allowed_turns hrefl (.inl hset))) h hq).2

/-! ### The surplus arguments of a call -/

/-- A function that runs once comes to its first statement where its body starts. -/
theorem Function.comes_head {call : Caller} {fuel : Nat}
    {fine : Mode → List Statement → State → Prop} {f : Function} {st : Statement}
    {sts : List Statement} {line : Nat} (hbody : f.body = st :: sts) (u : State) :
    f.Comes call fuel fine ⟨.single line, false⟩ u st u := by
  have hone : (LineRange.single line).length = 0 + 1 := Nat.add_sub_cancel_left line 1
  unfold Function.Comes
  rw [hbody, hone]
  exact .inside (.here st sts u)

/-- In the frame of a call of a variadic function, `a:000` is a list of the surplus arguments
when the body starts. -/
theorem exists_list_of_prepare {n : Nat} {s u : State} {f : DefinedFunction} {args : List Value}
    {dict : Option DictRef} {range : LineRange} (hvariadic : f.function.signature.variadic = true)
    (hleast : f.function.signature.required.length ≤ args.length)
    (hu : prepare (callFunction n) f.function args dict range (s.enter f) = (.value (), u)) :
    let surplus := args.drop f.function.signature.parameters.length
    ∃ r, u.session.heap.HasList r ∧ u.session.heap.items r = surplus ∧
      ∀ t : State, t.frames = u.frames → t.HasSurplus r surplus ∧
        t.lookup ⟨some .arguments, "0"⟩ = some (Builtin.count surplus.length) := by
  intro surplus
  have hcourse := bindArguments_course (confined_callFunction n) (s := s) hleast
  generalize hbind : bindArguments (callFunction n) f.function.signature args (s.enter f) = bound
    at hcourse
  cases hcourse with
  | bound _ hextra hinside =>
    rw [prepare_of_bound hbind hinside dict range] at hu
    cases hu
    have hframe := hinside.ready range dict
    rw [List.append_assoc] at hframe
    obtain ⟨r, rfl, hlist, hitems⟩ := (if_pos hvariadic).mp hextra
    refine ⟨r, hlist, hitems, fun t ht => ⟨(hframe.of_frames ht).hasSurplus hextra rfl, ?_⟩⟩
    exact (hframe.of_frames ht).lookup (hextra.nodup range)
      (List.mem_append_left _ List.mem_cons_self)
  | @stopped _ _ _ _ _ _ _ r =>
    -- a default without a value ends the call before its body
    obtain ⟨_, s₁, hvalue, -⟩ := Interp.bind_eq_value_iff.mp hu
    rw [hbind] at hvalue
    exact absurd (congrArg Prod.fst hvalue) (Outcome.passOn_ne_value r _)

/-- **Surplus arguments.**  Suppose that a registered variadic function is called, that the call
is not refused, and that its body starts in the state `u`.  Then `a:000` is a list there, and
its elements are the surplus arguments.

In all states that the function passes, `a:000` is this list and `a:0`, `a:1` and so on are
what they were, and the list has lost no element.  If no element of it has been assigned on the
way, then it still begins with the surplus arguments.  If none has been added either, then it
is still the list of exactly the surplus arguments, and its length is `a:0`. -/
theorem callFunction_surplus {n : Nat} {s u : State} {name : String} {f : DefinedFunction}
    {args : List Value} {site : CallSite} (hf : s.session.functions.get? name = some f)
    (hvariadic : f.function.signature.variadic = true)
    (haccepted : checkCall s f.function.signature args site = .ok ())
    (hu : prepare (callFunction n) f.function args site.dict
      (LineSpan.ofCall f.function.signature.flags site.range s.currentLine).range (s.enter f) =
        (.value (), u)) :
    let span := LineSpan.ofCall f.function.signature.flags site.range s.currentLine
    let surplus := args.drop f.function.signature.parameters.length
    callFunction (n + 1) name args site s =
      ((runBound (callFunction n) n f.function span u).1,
        (runBound (callFunction n) n f.function span u).2.leave) ∧
    ∃ r, u.session.heap.items r = surplus ∧
      ∀ t, f.function.Passes (callFunction n) n Anything span u t →
        t.HasSurplus r surplus ∧ surplus.length ≤ (t.session.heap.items r).length ∧
        (f.function.PassesWithout (Request.Sets r) r n span u t →
          surplus <+: t.session.heap.items r) ∧
        (f.function.PassesWithout (Request.Changes r) r n span u t →
          t.session.heap.items r = surplus ∧
          ∃ v, Builtin.size t.session.heap (.list r) = .ok v ∧
            t.lookup ⟨some .arguments, "0"⟩ = some v) := by
  intro span surplus
  have hleast : f.function.signature.required.length ≤ args.length := by
    by_contra hfew
    rw [checkCall_of_tooFew (Nat.lt_of_not_le hfew)] at haccepted
    cases haccepted
  obtain ⟨r, hlist, hitems, hframe⟩ := exists_list_of_prepare hvariadic hleast hu
  constructor
  · rw [callFunction_of_accepted hf haccepted rfl, runInvocation_eq,
      Interp.bind_of_value hu]
    rfl
  refine ⟨r, hitems, fun t ht => ?_⟩
  have hconfined := confined_callFunction n
  -- statements leave the frame of the call alone, and with it what the names are bound to
  have heffect : Effect .statement u t :=
    (carries_effect hconfined).passes (fun _ _ _ _ c t' _ => c.confined_execute hconfined t') ht
  obtain ⟨hsurplus, hcount⟩ := hframe t heffect.outer_frames
  have hlength := length_le_of_passes hlist ht
  rw [hitems] at hlength
  refine ⟨hsurplus, hlength, fun h => ?_, fun h => ?_⟩
  · have hturns := h.turns List.prefix_refl (fun _ _ _ => List.IsPrefix.trans)
      (fun _ _ _ _ hsets => hsets) (.inl fun vs v => List.prefix_append vs [v]) hlist
    rw [hitems] at hturns
    exact hturns.2
  · have hturns := h.turns (fun _ => rfl) (fun _ _ _ => Eq.trans)
      (fun _ _ _ _ hsets => .inl hsets) (.inr fun _ _ _ _ hadds => .inr hadds) hlist
    have hsame : t.session.heap.items r = surplus := hturns.2.symm.trans hitems
    refine ⟨hsame, Builtin.count surplus.length, ?_, hcount⟩
    rw [← hsame]
    rfl

/-- A function that shows the number of its surplus arguments. -/
theorem callFunction_surplus_of_echo :
    let st : Statement := .command (.echo false [.variable ⟨some .arguments, "0"⟩])
    let f : DefinedFunction := ⟨⟨{ Signature.named "F" with variadic := true }, [st]⟩, none⟩
    ∃ (u t : State) (r : ListRef),
      prepare (callFunction 1) f.function [.integer 7, .integer 8] none (.single 1)
        ((State.knowing f).enter f) = (.value (), u) ∧
      f.function.Passes (callFunction 1) 1 Anything ⟨.single 1, false⟩ u t ∧
      t.session.messages = #[⟨"2", false⟩] ∧
      t.lookup ⟨some .arguments, "000"⟩ = some (.list r) ∧
      t.session.heap.items r = [.integer 7, .integer 8] := by
  intro st f
  obtain ⟨u, hstart⟩ : ∃ u, u = (prepare (callFunction 1) f.function [.integer 7, .integer 8] none
      (.single 1) ((State.knowing f).enter f)).2 := ⟨_, rfl⟩
  have hu : prepare (callFunction 1) f.function [.integer 7, .integer 8] none (.single 1)
      ((State.knowing f).enter f) = (.value (), u) :=
    Prod.ext (by cbv) hstart.symm
  have hf : (State.knowing f).session.functions.get? "F" = some f := rfl
  have haccepted : checkCall (State.knowing f) f.function.signature [.integer 7, .integer 8] {} =
      .ok () := rfl
  obtain ⟨-, r, -, h⟩ := callFunction_surplus hf rfl haccepted hu
  have hpasses (call : Caller) :
      f.function.Passes call 1 Anything ⟨.single 1, false⟩ u (st.execute call 1 u).2 :=
    .behind (Function.comes_head rfl u) trivial
  obtain ⟨hsurplus, -, -, hsame⟩ := h _ (hpasses (callFunction 1))
  have hmessages : u.session.messages = #[] := by
    rw [hstart]
    cbv
  -- the statement makes no call, and so it does not matter who calls
  have hst (call : Caller) :
      st.execute call 1 u = (.value .done, { u with session := u.session.echo "2" }) := by
    unfold st
    rw [hstart]
    cbv
  have hspares (call : Caller) : Spares r call 1 .block [st] u := by
    unfold st
    intro c t hc hsets
    cases hc with
    | here =>
      obtain ⟨base, place, op, value, v, s₁, s₂, hassign, -⟩ := hsets
      cases hassign
    | next _ _ _ hnil => cases hnil
  refine ⟨u, _, r, hu, hpasses _, ?_, hsurplus.list, (hsame fun p => ?_).1⟩
  · rw [hst]
    show u.session.messages.push _ = _
    rw [hmessages]
    rfl
  · rw [hst, ← congrArg Prod.snd (hst (guarded _ p 1))]
    exact .behind (Function.comes_head rfl u) (hspares _)

/-- A function that adds an element to the list of its surplus arguments, and returns the length
of the list. -/
theorem items_ne_surplus_of_add :
    let list : Expr := .variable ⟨some .arguments, "000"⟩
    let st : Statement := .command (.call none "add" [list, .integer 7])
    let f : DefinedFunction :=
      ⟨⟨{ Signature.named "F" with variadic := true }, [st, .leave (some (.call "len" [list]))]⟩,
        none⟩
    ∃ (u t : State) (r : ListRef),
      checkCall (State.knowing f) f.function.signature [.integer 1, .integer 2] {} = .ok () ∧
      prepare (callFunction 2) f.function [.integer 1, .integer 2] none (.single 1)
        ((State.knowing f).enter f) = (.value (), u) ∧
      f.function.Passes (callFunction 2) 2 Anything ⟨.single 1, false⟩ u t ∧
      t.lookup ⟨some .arguments, "000"⟩ = some (.list r) ∧
      t.lookup ⟨some .arguments, "0"⟩ = some (.integer 2) ∧
      t.session.heap.items r = [.integer 1, .integer 2, .integer 7] ∧
      Builtin.size t.session.heap (.list r) = .ok (.integer 3) ∧
      (callFunction 3 "F" [.integer 1, .integer 2] {} (State.knowing f)).1 =
        .value (.integer 3) := by
  intro list st f
  have hvalue : (callFunction 3 "F" [.integer 1, .integer 2] {} (State.knowing f)).1 =
      .value (.integer 3) := by
    unfold f st list
    cbv
  obtain ⟨u, hstart⟩ : ∃ u, u = (prepare (callFunction 2) f.function [.integer 1, .integer 2] none
      (.single 1) ((State.knowing f).enter f)).2 := ⟨_, rfl⟩
  obtain ⟨t, hbehind⟩ : ∃ t, t = (st.execute (callFunction 2) 2 u).2 := ⟨_, rfl⟩
  have hpasses : f.function.Passes (callFunction 2) 2 Anything ⟨.single 1, false⟩ u t := by
    rw [hbehind]
    exact .behind (Function.comes_head rfl u) trivial
  unfold st list at hbehind
  rw [hstart] at hbehind
  refine ⟨u, t, ⟨0⟩, rfl, Prod.ext (by cbv) hstart.symm, hpasses, ?_, ?_, ?_, ?_, hvalue⟩
  · rw [hbehind]
    cbv
  · rw [hbehind]
    cbv
  · rw [hbehind]
    cbv
  · rw [hbehind]
    cbv

end ModalScript
