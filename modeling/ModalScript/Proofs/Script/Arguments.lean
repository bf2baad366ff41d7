/-
What a call gives its parameters.

A call that is not refused has a frame, and binds its arguments there before its body starts:
the parameters get the arguments in their order, those that are left out get the values of
their defaults, and a variadic function gets what is left over.  `State.Inside` says which
arguments the frame of a call holds, to the last one.  `FillsIn` says how the defaults come
about: each of them is evaluated inside the call, when exactly the parameters before it are
bound, and in the state that the default before it has left.  A default may run anything, but
it leaves the frames alone, so that what has been bound stays bound.

What can become of the binding is `BindingCourse`, and of a call as a whole `CallCourse`; when a
body starts, its arguments are as `State.HasArguments` says.

Main result: `callFunction_binds`.
-/
import Mathlib.Data.List.Induction
import Mathlib.Data.List.Nodup
import ModalScript.Proofs.Lists
import ModalScript.Proofs.Script.Lines

namespace ModalScript

/-! ### Names of parameters -/

/-- A text that is a decimal numeral. -/
def IsNumeral (name : String) : Prop :=
  name ≠ "" ∧ ∀ c ∈ name.toList, c.isDigit = true

theorem isNumeral_repr (n : Nat) : IsNumeral n.repr := by
  refine ⟨Nat.repr_ne_empty, fun c hc => ?_⟩
  rw [Nat.toList_repr] at hc
  exact Nat.isDigit_of_mem_toDigits (by decide) (by decide) hc

theorem isNumeral_zeros : IsNumeral "000" := by
  have hzeros : "000".toList = List.replicate 3 '0' := rfl
  refine ⟨by decide, fun c hc => ?_⟩
  rw [hzeros] at hc
  obtain rfl := List.eq_of_mem_replicate hc
  rfl

/-- A number can be read off its numeral. -/
theorem leftInverse_repr :
    Function.LeftInverse (fun name : String => Nat.ofDigitChars 10 name.toList 0) Nat.repr := by
  intro n
  show Nat.ofDigitChars 10 n.repr.toList 0 = n
  rw [Nat.toList_repr, Nat.ofDigitChars_ten_toDigits]

/-- No number has more than one zero at its front. -/
theorem repr_ne_zeros (n : Nat) : n.repr ≠ "000" := by
  intro h
  -- it could only be zero, which is written with one
  have hzero : n = 0 := by
    rw [← leftInverse_repr n, h]
    rfl
  rw [hzero] at h
  exact absurd h (by decide)

namespace Signature

/-- The names of the parameters, those that may be left out behind the others. -/
def parameters (q : Signature) : List String :=
  q.required ++ q.optional.map Prod.fst

/-- The parameters have different names, and these are no names of what a call binds besides
its parameters. -/
structure Distinct (q : Signature) : Prop where
  nodup : q.parameters.Nodup
  not_isNumeral : ∀ p ∈ q.parameters, ¬ IsNumeral p
  ne_line : ∀ p ∈ q.parameters, p ≠ "firstline" ∧ p ≠ "lastline"

/-- The parameters that get arguments, with these. -/
def passed (q : Signature) (args : List Value) : List (String × Value) :=
  q.parameters.zip args

/-- The parameters that are left out, with their defaults. -/
def missing (q : Signature) (args : List Value) : List (String × Expr) :=
  q.optional.drop (args.length - q.required.length)

/-- The arguments for which there is no parameter. -/
def surplus (q : Signature) (args : List Value) : List Value :=
  args.drop q.parameters.length

theorem length_parameters (q : Signature) :
    q.parameters.length = q.required.length + q.optional.length := by
  rw [parameters, List.length_append, List.length_map]

/-- The parameters without an argument may be left out. -/
theorem map_fst_missing (q : Signature) {args : List Value}
    (h : q.required.length ≤ args.length) :
    (q.missing args).map Prod.fst = q.parameters.drop args.length := by
  rw [parameters, List.drop_append, List.drop_of_length_le h, List.nil_append, missing,
    List.map_drop]

/-- Each parameter is passed or left out. -/
theorem map_fst_passed_append (q : Signature) {args values : List Value}
    (h : q.required.length ≤ args.length) (hvalues : values.length = (q.missing args).length) :
    (q.passed args ++ ((q.missing args).map Prod.fst).zip values).map Prod.fst =
      q.parameters := by
  have hlength : ((q.missing args).map Prod.fst).length ≤ values.length := by
    rw [List.length_map, hvalues]
  rw [List.map_append, List.map_fst_zip hlength, passed, map_fst_zip_eq_take,
    q.map_fst_missing h, List.take_append_drop]

end Signature

/-! ### Numbers of arguments -/

section Arity

variable {s : State} {q : Signature} {args : List Value} {site : CallSite}

theorem checkCall_of_tooFew (h : args.length < q.required.length) :
    checkCall s q args site =
      .error (.arity (.tooFew q.qualifiedName q.required.length args.length)) := by
  have harity : q.checkArity args.length =
      .error (.tooFew q.qualifiedName q.required.length args.length) := if_pos h
  rw [checkCall, harity]

theorem checkCall_of_tooMany (hvariadic : q.variadic = false)
    (h : q.parameters.length < args.length) :
    checkCall s q args site =
      .error (.arity (.tooMany q.qualifiedName q.parameters.length args.length)) := by
  rw [q.length_parameters] at h ⊢
  have hleast : ¬ args.length < q.required.length := by omega
  have hmost : q.mostArguments = some (q.required.length + q.optional.length) := by
    rw [Signature.mostArguments, hvariadic]
    rfl
  have harity : q.checkArity args.length =
      .error (.tooMany q.qualifiedName (q.required.length + q.optional.length) args.length) := by
    rw [Signature.checkArity, hmost]
    exact (if_neg hleast).trans (if_pos h)
  rw [checkCall, harity]

/-- A call with a right number of arguments can only be refused for two other reasons. -/
theorem checkCall_of_bounds (hleast : q.required.length ≤ args.length)
    (hmost : q.variadic = false → args.length ≤ q.parameters.length) :
    checkCall s q args site =
      if q.flags.dict ∧ site.dict = none then .error (.dictFunctionWithoutDict q.qualifiedName)
      else if s.session.maxCallDepth ≤ s.session.vars.depth then .error .callDepthExceeded
      else .ok () := by
  -- the number of arguments is looked at before everything else
  have harity : q.checkArity args.length = .ok () := by
    refine (if_neg (Nat.not_lt_of_le hleast)).trans ?_
    rw [Signature.mostArguments]
    cases hvariadic : q.variadic with
    | true => rfl
    | false => exact if_neg (Nat.not_lt_of_le (q.length_parameters ▸ hmost hvariadic))
  rw [checkCall, harity]

end Arity

/-! ### The frame of a call -/

namespace State

/-- The state in which the innermost function has got one more argument. -/
def bind (s : State) (name : String) (x : Value) : State :=
  { s with session := { s.session with vars := s.session.vars.bindArgument name x } }

/-- The state in which the innermost function has got more arguments, one after the other. -/
def bindAll (s : State) (es : List (String × Value)) : State :=
  es.foldl (fun s e => s.bind e.1 e.2) s

/-- The state is one inside the call of a function from `s`, whose frame holds exactly these
arguments. -/
def Inside (t s : State) (f : DefinedFunction) (es : List (String × Value)) : Prop :=
  t.frames = ⟨f.function.signature.qualifiedName, .ofList es,
    ⟨s.session.vars.localTables.size⟩, f.captured⟩ :: s.frames

theorem bindAll_append (s : State) (es es' : List (String × Value)) :
    s.bindAll (es ++ es') = (s.bindAll es).bindAll es' :=
  List.foldl_append

end State

theorem Dict.ofList_concat {α : Type} (es : List (String × α)) (k : String) (v : α) :
    ofList (es ++ [(k, v)]) = (ofList es).insert k v := by
  rw [ofList, ofList, List.foldl_append]
  rfl

/-- Of entries with different keys none is lost, whatever stands in front of them. -/
theorem Dict.get?_ofList_append_of_mem {α : Type} (es : List (String × α))
    {es' : List (String × α)} {k : String} {v : α} (hnodup : (es'.map Prod.fst).Nodup)
    (h : (k, v) ∈ es') : (ofList (es ++ es')).get? k = some v := by
  induction es' using List.reverseRecOn with
  | nil => cases h
  | append_singleton es' e ih =>
    obtain ⟨k', v'⟩ := e
    rw [List.map_append, List.nodup_append] at hnodup
    rw [← List.append_assoc, ofList_concat]
    rcases List.mem_append.mp h with hmem | hmem
    · -- the last entry has another key, so that it hides nothing
      have hne : k ≠ k' := hnodup.2.2 k (List.mem_map_of_mem hmem) k' List.mem_cons_self
      rw [get?_insert_ne _ _ hne]
      exact ih hnodup.1 hmem
    · cases List.mem_singleton.mp hmem
      exact get?_insert_self _ _ _

/-- The lines of a call as arguments. -/
def lineArguments (range : LineRange) : List (String × Value) :=
  [("firstline", .integer (Decimal.clamp range.first)),
    ("lastline", .integer (Decimal.clamp range.last))]

namespace State.Inside

variable {s t u : State} {f : DefinedFunction} {es : List (String × Value)}

/-- The frame of a call holds nothing at first. -/
theorem enter (s : State) (f : DefinedFunction) : (s.enter f).Inside s f [] :=
  rfl

theorem of_frames (h : t.Inside s f es) (hframes : u.frames = t.frames) : u.Inside s f es :=
  hframes.trans h

theorem bind (h : t.Inside s f es) (name : String) (x : Value) :
    (t.bind name x).Inside s f (es ++ [(name, x)]) := by
  show t.frames.modifyHead (Frame.bind name x) = _
  rw [h, Dict.ofList_concat]
  rfl

theorem bindAll (h : t.Inside s f es) (es' : List (String × Value)) :
    (t.bindAll es').Inside s f (es ++ es') := by
  induction es' generalizing t es with
  | nil => rwa [List.append_nil]
  | cons e es' ih =>
    rw [List.append_cons]
    exact ih (h.bind e.1 e.2)

/-- The lines of the call are two more arguments. -/
theorem ready (h : t.Inside s f es) (range : LineRange) (dict : Option DictRef) :
    (t.ready range dict).Inside s f (es ++ lineArguments range) := by
  have hlines := (h.bind "firstline" (.integer (Decimal.clamp range.first))).bind "lastline"
    (.integer (Decimal.clamp range.last))
  rw [List.append_assoc] at hlines
  exact hlines.of_frames (Variables.frames_bindSelf _ dict)

/-- What is seen of the arguments that have been bound last. -/
theorem lookup {es' : List (String × Value)} (h : t.Inside s f (es ++ es'))
    (hnodup : (es'.map Prod.fst).Nodup) {name : String} {x : Value} (hmem : (name, x) ∈ es') :
    t.lookup ⟨some .arguments, name⟩ = some x := by
  have hframes : t.session.vars.frames = _ := h
  simp only [State.lookup, Variables.get?, Variables.frame?, hframes, List.head?_cons,
    Option.bind_some]
  exact Dict.get?_ofList_append_of_mem es hnodup hmem

end State.Inside

/-! ### Parameters that have arguments -/

theorem bindRequired_eq {names : List String} {args : List Value}
    (h : names.length ≤ args.length) (t : State) :
    bindRequired names args t =
      (.value (args.drop names.length), t.bindAll (names.zip args)) := by
  induction names generalizing args t with
  | nil => rfl
  | cons name names ih =>
    cases args with
    | nil => cases h
    | cons v args => exact ih (Nat.le_of_succ_le_succ h) (t.bind name v)

/-- A parameter that may be left out takes an argument as long as there is one. -/
theorem bindOptional_eq (call : Caller) (parameters : List (String × Expr)) (args : List Value)
    (t : State) :
    bindOptional call parameters args t =
      bindOptional call (parameters.drop args.length) (args.drop parameters.length)
        (t.bindAll ((parameters.map Prod.fst).zip args)) := by
  induction parameters generalizing args t with
  | nil =>
    rw [List.drop_nil]
    rfl
  | cons p parameters ih =>
    cases args with
    | nil => rfl
    | cons v args => exact ih args (t.bind p.1 v)

/-! ### Parameters that have been left out -/

/-- Inside a call that has bound some arguments, parameters get the values of their defaults,
one after the other. -/
inductive FillsIn (call : Caller) (s : State) (f : DefinedFunction) :
    List (String × Value) → List (String × Expr) → State → List Value → State → Prop
  | nil {es : List (String × Value)} {t : State} :
      t.Inside s f es → FillsIn call s f es [] t [] t
  | cons {es : List (String × Value)} {name : String} {default : Expr}
      {parameters : List (String × Expr)} {t t₁ u : State} {v : Value} {vs : List Value} :
      t.Inside s f es →
      default.evaluate call t = (.value v, t₁) →
      FillsIn call s f (es ++ [(name, v)]) parameters (t₁.bind name v) vs u →
      FillsIn call s f es ((name, default) :: parameters) t (v :: vs) u

namespace FillsIn

variable {call : Caller} {s t u : State} {f : DefinedFunction} {es : List (String × Value)}
  {parameters : List (String × Expr)} {vs : List Value}

theorem length_eq (h : FillsIn call s f es parameters t vs u) : vs.length = parameters.length := by
  induction h with
  | nil => rfl
  | cons _ _ _ ih => rw [List.length_cons, List.length_cons, ih]

/-- Afterwards these parameters are bound too. -/
theorem inside (h : FillsIn call s f es parameters t vs u) :
    u.Inside s f (es ++ (parameters.map Prod.fst).zip vs) := by
  induction h with
  | nil ht => simpa using ht
  | cons _ _ _ ih => simpa using ih

end FillsIn

/-- What a computation without a value ends with is what everything around it ends with. -/
def Outcome.passOn {α β : Type} : Outcome α → Outcome β
  | .failed e => .failed e
  | .outOfFuel | .value _ => .outOfFuel

theorem Outcome.passOn_self {α : Type} {r : Outcome α} (hr : ∀ a, r ≠ .value a) :
    (r.passOn : Outcome α) = r := by
  cases r with
  | value a => exact absurd rfl (hr a)
  | failed e | outOfFuel => rfl

theorem Outcome.passOn_passOn {α β γ : Type} (r : Outcome α) :
    ((r.passOn : Outcome β).passOn : Outcome γ) = r.passOn := by
  cases r <;> rfl

theorem Outcome.passOn_ne_value {α β : Type} (r : Outcome α) (b : β) : r.passOn ≠ .value b := by
  cases r <;> exact fun h => nomatch h

theorem Interp.bind_of_cut {α β : Type} {m : Interp α} {s t : State} {r : Outcome α}
    (h : m s = (r, t)) (hr : ∀ a, r ≠ .value a) (g : α → Interp β) :
    (m >>= g) s = (r.passOn, t) := by
  show m.andThen g s = _
  unfold Interp.andThen
  rw [h]
  cases r with
  | value a => exact absurd rfl (hr a)
  | failed e | outOfFuel => rfl

/-- Either all defaults have values, or the first one that has none is the last that is
evaluated. -/
theorem bindOptional_course {call : Caller} (hcall : call.Confined) {s t : State}
    {f : DefinedFunction} {es : List (String × Value)} (ht : t.Inside s f es)
    {parameters : List (String × Expr)} {args : List Value} (h : parameters = [] ∨ args = []) :
    (∃ vs u, FillsIn call s f es parameters t vs u ∧
      bindOptional call parameters args t = (.value args, u)) ∨
    ∃ before name default after vs t₁ r u,
      parameters = before ++ (name, default) :: after ∧ FillsIn call s f es before t vs t₁ ∧
      default.evaluate call t₁ = (r, u) ∧ (∀ v, r ≠ .value v) ∧
      bindOptional call parameters args t = (r.passOn, u) := by
  induction parameters generalizing t es with
  | nil => exact .inl ⟨[], t, .nil ht, rfl⟩
  | cons p parameters ih =>
    obtain ⟨name, default⟩ := p
    obtain rfl : args = [] := h.resolve_left (List.cons_ne_nil _ _)
    have hrun : bindOptional call ((name, default) :: parameters) [] t =
        (default.evaluate call >>= fun v => do
          Interp.bindArgument name v
          bindOptional call parameters []) t := rfl
    rcases hr : default.evaluate call t with ⟨r, t₁⟩
    cases r with
    | failed e =>
      have hcut (v : Value) : Outcome.failed e ≠ .value v := fun hv => nomatch hv
      exact .inr ⟨[], name, default, parameters, [], t, _, t₁, rfl, .nil ht, hr, hcut,
        hrun.trans (Interp.bind_of_cut hr hcut _)⟩
    | outOfFuel =>
      have hcut (v : Value) : Outcome.outOfFuel ≠ .value v := fun hv => nomatch hv
      exact .inr ⟨[], name, default, parameters, [], t, _, t₁, rfl, .nil ht, hr, hcut,
        hrun.trans (Interp.bind_of_cut hr hcut _)⟩
    | value v =>
      -- a default may run anything, but the frame of the call is the innermost one again
      have hframes : t₁.frames = t.frames := by
        have heffect := (Expr.confined_evaluate hcall default).statement.frames_eq t
        rwa [hr] at heffect
      have hnext : bindOptional call ((name, default) :: parameters) [] t =
          bindOptional call parameters [] (t₁.bind name v) := by
        rw [hrun]
        show (default.evaluate call).andThen _ t = _
        rw [Interp.andThen, hr]
        rfl
      rw [hnext]
      rcases ih ((ht.of_frames hframes).bind name v) (.inr rfl) with
        ⟨vs, u, hfills, hrest⟩ | ⟨before, name', default', after, vs, t₂, r', u, rfl, hfills, hcut⟩
      · exact .inl ⟨v :: vs, u, .cons ht hr hfills, hrest⟩
      · exact .inr ⟨(name, default) :: before, name', default', after, v :: vs, t₂, r', u, rfl,
          .cons ht hr hfills, hcut⟩

/-! ### Surplus arguments -/

/-- Arguments with their numbers from `n` on. -/
def numbered (n : Nat) (args : List Value) : List (String × Value) :=
  (args.zipIdx n).map fun p => (p.2.repr, p.1)

/-- What a variadic function is given besides its parameters: the number of the surplus
arguments, each of them by its number, and the list of them. -/
def surplusArguments (surplus : List Value) (r : ListRef) : List (String × Value) :=
  ("0", Builtin.count surplus.length) :: numbered 1 surplus ++ [("000", .list r)]

/-- What a function is given besides its parameters: nothing, unless it is variadic. -/
def Signature.Extra (q : Signature) (h : Heap) (surplus : List Value)
    (es : List (String × Value)) : Prop :=
  if q.variadic then
    ∃ r, es = surplusArguments surplus r ∧ h.HasList r ∧ h.items r = surplus
  else es = []

theorem bindNumbered_eq (n : Nat) (args : List Value) (t : State) :
    bindNumbered n args t = (.value (), t.bindAll (numbered n args)) := by
  induction args generalizing n t with
  | nil => rfl
  | cons v args ih => exact ih (n + 1) (t.bind n.repr v)

/-- The list of the surplus arguments is a new one. -/
theorem bindSurplus_course {s t : State} {f : DefinedFunction} {es : List (String × Value)}
    (ht : t.Inside s f es) (args : List Value) :
    ∃ r u, bindSurplus args t = (.value (), u) ∧
      u.Inside s f (es ++ surplusArguments args r) ∧
      u.session.heap.HasList r ∧ u.session.heap.items r = args := by
  let t₁ := (t.bind "0" (Builtin.count args.length)).bindAll (numbered 1 args)
  let t₂ : State :=
    { t₁ with session := { t₁.session with heap := (t₁.session.heap.newList args).2 } }
  let r := (t₁.session.heap.newList args).1
  -- the list is made behind the numbers, and bound last
  have hrun : bindSurplus args t = (.value (), t₂.bind "000" (.list r)) := by
    show (bindNumbered 1 args).andThen _ (t.bind "0" (Builtin.count args.length)) = _
    rw [Interp.andThen, bindNumbered_eq]
    rfl
  have hinside : t₂.Inside s f (es ++ [("0", Builtin.count args.length)] ++ numbered 1 args) :=
    (ht.bind "0" (Builtin.count args.length)).bindAll (numbered 1 args)
  refine ⟨r, t₂.bind "000" (.list r), hrun, ?_, ?_, ?_⟩
  · have hlist := hinside.bind "000" (.list r)
    simpa only [surplusArguments, List.append_assoc, List.cons_append,
      List.nil_append] using hlist
  · show t₁.session.heap.lists.size < (t₁.session.heap.lists.push args).size
    rw [Array.size_push]
    exact Nat.lt_succ_self _
  · exact Heap.items_newList_self _ args

theorem map_fst_surplusArguments (surplus : List Value) (r : ListRef) :
    (surplusArguments surplus r).map Prod.fst =
      (List.range' 0 (surplus.length + 1)).map Nat.repr ++ ["000"] := by
  have hnumbered : (numbered 1 surplus).map Prod.fst =
      (List.range' 1 surplus.length).map Nat.repr := by
    rw [numbered, List.map_map, ← List.zipIdx_map_snd, List.map_map]
    rfl
  rw [surplusArguments, List.map_append, List.map_cons, hnumbered]
  rfl

theorem nodup_surplusArguments (surplus : List Value) (r : ListRef) :
    ((surplusArguments surplus r).map Prod.fst).Nodup := by
  rw [map_fst_surplusArguments]
  refine List.nodup_append.mpr
    ⟨List.Nodup.map leftInverse_repr.injective List.nodup_range', List.nodup_singleton _, ?_⟩
  intro p hp p' hp'
  obtain ⟨n, -, rfl⟩ := List.mem_map.mp hp
  rw [List.mem_singleton.mp hp']
  exact repr_ne_zeros n

/-- What is bound of the surplus has numerals for names. -/
theorem isNumeral_of_mem_surplusArguments {surplus : List Value} {r : ListRef} {p : String}
    (hp : p ∈ (surplusArguments surplus r).map Prod.fst) : IsNumeral p := by
  rw [map_fst_surplusArguments] at hp
  rcases List.mem_append.mp hp with hp | hp
  · obtain ⟨n, -, rfl⟩ := List.mem_map.mp hp
    exact isNumeral_repr n
  · rw [List.mem_singleton.mp hp]
    exact isNumeral_zeros

/-- Each surplus argument is bound by its number, counted from 1. -/
theorem mem_surplusArguments {surplus : List Value} {k : Nat} {v : Value}
    (h : surplus[k]? = some v) (r : ListRef) :
    ((k + 1).repr, v) ∈ surplusArguments surplus r := by
  have hmem : (v, k + 1) ∈ surplus.zipIdx 1 := by
    rw [Nat.add_comm]
    exact List.mk_add_mem_zipIdx_iff_getElem?.mpr h
  exact List.mem_append_left _ (List.mem_cons_of_mem _ (List.mem_map_of_mem hmem))

/-- The innermost function has been called with surplus arguments: `a:000` is the list, `a:0`
the number of them, and each of them has its own number. -/
structure State.HasSurplus (t : State) (r : ListRef) (surplus : List Value) : Prop where
  list : t.lookup ⟨some .arguments, "000"⟩ = some (.list r)
  count : ∃ i : Int64, t.lookup ⟨some .arguments, "0"⟩ = some (.integer i) ∧
    (surplus.length < 2 ^ 63 → i.toInt = surplus.length)
  element : ∀ k v, surplus[k]? = some v →
    t.lookup ⟨some .arguments, (k + 1).repr⟩ = some v

/-! ### All that a call binds -/

theorem not_isNumeral_of_mem_lineArguments {range : LineRange} {p : String}
    (hp : p ∈ (lineArguments range).map Prod.fst) : ¬ IsNumeral p := by
  intro h
  rcases List.mem_cons.mp hp with rfl | hp
  · exact absurd (h.2 'f' (by simp)) (by decide)
  · obtain rfl := List.mem_singleton.mp hp
    exact absurd (h.2 'l' (by simp)) (by decide)

/-- What is bound besides the parameters has different names. -/
theorem Signature.Extra.nodup {q : Signature} {h : Heap} {surplus : List Value}
    {extra : List (String × Value)} (hextra : q.Extra h surplus extra) (range : LineRange) :
    ((extra ++ lineArguments range).map Prod.fst).Nodup := by
  have hlines : ((lineArguments range).map Prod.fst).Nodup := by
    show ["firstline", "lastline"].Nodup
    decide
  unfold Signature.Extra at hextra
  split at hextra
  · obtain ⟨r, rfl, -, -⟩ := hextra
    rw [List.map_append, List.nodup_append]
    refine ⟨nodup_surplusArguments surplus r, hlines, ?_⟩
    rintro p hp p' hp' rfl
    exact not_isNumeral_of_mem_lineArguments hp' (isNumeral_of_mem_surplusArguments hp)
  · rw [hextra]
    exact hlines

/-- If the parameters have different names, so has all that is bound. -/
theorem Signature.Distinct.nodup_names {q : Signature} (hq : q.Distinct)
    {parameters extra : List (String × Value)}
    (hparameters : parameters.map Prod.fst = q.parameters) {h : Heap} {surplus : List Value}
    (hextra : q.Extra h surplus extra) (range : LineRange) :
    ((parameters ++ (extra ++ lineArguments range)).map Prod.fst).Nodup := by
  rw [List.map_append, hparameters, List.nodup_append]
  refine ⟨hq.nodup, hextra.nodup range, ?_⟩
  rintro p hp p' hp' rfl
  rw [List.map_append] at hp'
  -- a name of a parameter is neither a numeral nor one of the lines
  rcases List.mem_append.mp hp' with hp' | hp'
  · unfold Signature.Extra at hextra
    split at hextra
    · obtain ⟨r, rfl, -, -⟩ := hextra
      exact hq.not_isNumeral p hp (isNumeral_of_mem_surplusArguments hp')
    · rw [hextra] at hp'
      cases hp'
  · rcases List.mem_cons.mp hp' with rfl | hp'
    · exact (hq.ne_line _ hp).1 rfl
    · obtain rfl := List.mem_singleton.mp hp'
      exact (hq.ne_line _ hp).2 rfl

/-- The surplus arguments are there, and this for parameters of any names. -/
theorem State.Inside.hasSurplus {s t : State} {f : DefinedFunction}
    {parameters extra : List (String × Value)} {range : LineRange}
    (ht : t.Inside s f (parameters ++ (extra ++ lineArguments range))) {h : Heap}
    {surplus : List Value} (hextra : f.function.signature.Extra h surplus extra)
    {r : ListRef} (hr : extra = surplusArguments surplus r) : t.HasSurplus r surplus := by
  have hlookup {p : String} {v : Value} (hmem : (p, v) ∈ surplusArguments surplus r) :
      t.lookup ⟨some .arguments, p⟩ = some v :=
    ht.lookup (hextra.nodup range) (List.mem_append_left _ (hr ▸ hmem))
  exact
    { list := hlookup (List.mem_append_right _ List.mem_cons_self)
      count := ⟨Decimal.clamp surplus.length, hlookup List.mem_cons_self,
        Decimal.toInt_clamp_of_lt⟩
      element := fun k v hk => hlookup (mem_surplusArguments hk r) }

/-! ### All arguments -/

/-- What can become of the arguments of a call that are not too few. -/
inductive BindingCourse (call : Caller) (s : State) (f : DefinedFunction) (args : List Value) :
    Outcome Unit × State → Prop
  /-- All parameters have values, and what is left over is bound too. -/
  | bound {values : List Value} {t u : State} {extra : List (String × Value)} :
      FillsIn call s f (f.function.signature.passed args) (f.function.signature.missing args)
        ((s.enter f).bindAll (f.function.signature.passed args)) values t →
      f.function.signature.Extra u.session.heap (f.function.signature.surplus args) extra →
      u.Inside s f (f.function.signature.passed args ++
        ((f.function.signature.missing args).map Prod.fst).zip values ++ extra) →
      BindingCourse call s f args (.value (), u)
  /-- A default has no value: then nothing that is behind it is evaluated. -/
  | stopped {before after : List (String × Expr)} {p : String} {default : Expr}
      {values : List Value} {t u : State} {r : Outcome Value} :
      f.function.signature.missing args = before ++ (p, default) :: after →
      FillsIn call s f (f.function.signature.passed args) before
        ((s.enter f).bindAll (f.function.signature.passed args)) values t →
      default.evaluate call t = (r, u) → (∀ v, r ≠ .value v) →
      BindingCourse call s f args (r.passOn, u)

section Binding

variable {call : Caller} {s : State} {f : DefinedFunction} {args : List Value}

/-- Binding the arguments comes to binding those that are passed, and then the rest. -/
theorem bindArguments_eq (call : Caller) (s : State) (f : DefinedFunction)
    (hleast : f.function.signature.required.length ≤ args.length) :
    bindArguments call f.function.signature args (s.enter f) =
      (bindOptional call (f.function.signature.missing args)
          (f.function.signature.surplus args) >>= fun args =>
        if f.function.signature.variadic then bindSurplus args else pure ())
        ((s.enter f).bindAll (f.function.signature.passed args)) := by
  let q := f.function.signature
  -- the parameters with arguments, in two parts
  have hpassed : q.required.zip args ++
      (q.optional.map Prod.fst).zip (args.drop q.required.length) = q.passed args :=
    (zip_append_left _ _ args).symm
  have hsurplus : (args.drop q.required.length).drop q.optional.length = q.surplus args := by
    rw [List.drop_drop, ← q.length_parameters]
    rfl
  show (bindRequired q.required args).andThen _ (s.enter f) = _
  rw [Interp.andThen, bindRequired_eq hleast]
  show (bindOptional call q.optional (args.drop q.required.length)).andThen _ _ =
    (bindOptional call (q.missing args) _).andThen _ _
  rw [Interp.andThen, bindOptional_eq, List.length_drop, hsurplus, ← State.bindAll_append,
    hpassed]
  rfl

theorem bindArguments_course (hcall : call.Confined)
    (hleast : f.function.signature.required.length ≤ args.length) :
    BindingCourse call s f args (bindArguments call f.function.signature args (s.enter f)) := by
  let q := f.function.signature
  have hstart : ((s.enter f).bindAll (q.passed args)).Inside s f (q.passed args) :=
    (State.Inside.enter s f).bindAll (q.passed args)
  -- arguments are left over only if no parameter has been left out
  have hdone : q.missing args = [] ∨ q.surplus args = [] := by
    unfold Signature.missing Signature.surplus
    rw [List.drop_eq_nil_iff, List.drop_eq_nil_iff, q.length_parameters]
    omega
  rw [bindArguments_eq call s f hleast]
  rcases bindOptional_course hcall hstart hdone with
    ⟨values, t, hfills, hopt⟩ |
    ⟨before, name, default, after, values, t, r, u, hmissing, hfills, hr, hcut, hopt⟩
  · have hnext : (bindOptional call (q.missing args) (q.surplus args) >>= fun args =>
        if q.variadic then bindSurplus args else pure ())
          ((s.enter f).bindAll (q.passed args)) =
        (if q.variadic then bindSurplus (q.surplus args) else pure ()) t := by
      show (bindOptional call (q.missing args) _).andThen _ _ = _
      rw [Interp.andThen, hopt]
    rw [hnext]
    cases hvariadic : q.variadic with
    | false =>
      have hextra : q.Extra t.session.heap (q.surplus args) [] := by
        rw [Signature.Extra, hvariadic]
        rfl
      have hinside := hfills.inside
      rw [← List.append_nil (_ ++ _)] at hinside
      exact .bound hfills hextra hinside
    | true =>
      obtain ⟨r, u, hbind, hinside, hlist⟩ := bindSurplus_course hfills.inside (q.surplus args)
      rw [if_pos rfl, hbind]
      exact .bound hfills ((if_pos hvariadic).mpr ⟨r, rfl, hlist⟩) hinside
  · have hstop := Interp.bind_of_cut hopt (Outcome.passOn_ne_value r)
      fun args => if q.variadic then bindSurplus args else pure ()
    -- what the default ended with goes through two computations around it
    rw [Outcome.passOn_passOn] at hstop
    rw [hstop]
    exact .stopped hmissing hfills hr hcut

end Binding

/-! ### The body of a call -/

/-- An invocation behind its arguments: the lines it is for, and its last problem. -/
def runBound (call : Caller) (fuel : Nat) (f : Function) (span : LineSpan) : Interp Value := do
  let r ← runLines call fuel (if f.signature.flags.abort then .abort else .resume)
    span.moves f.body span.range.length span.range.first none {}
  reportLast r.2
  return r.1.getD (.integer 0)

/-- When a body starts in the state `u`, each parameter has its argument or else the value of
its default, and a variadic function has its surplus arguments.  This is so as long as the
innermost frame is that of the call and as it was. -/
structure State.HasArguments (u : State) (q : Signature) (args values : List Value) : Prop where
  /-- The parameters that are left out have a value each. -/
  filled : values.length = (q.missing args).length
  parameter : ∀ t : State, t.frames = u.frames →
    ∀ e ∈ q.passed args ++ ((q.missing args).map Prod.fst).zip values,
      t.lookup ⟨some .arguments, e.1⟩ = some e.2
  surplus : q.variadic = true → ∃ r, u.session.heap.items r = q.surplus args ∧
    ∀ t : State, t.frames = u.frames → t.HasSurplus r (q.surplus args)

/-- What can become of a call whose number of arguments is right. -/
inductive CallCourse (n : Nat) (s : State) (f : DefinedFunction) (args : List Value)
    (site : CallSite) : Outcome Value × State → Prop
  /-- The call is without the dictionary that the function asks for. -/
  | withoutDict : f.function.signature.flags.dict = true → site.dict = none →
      CallCourse n s f args site
        (.failed (.eval (.dictFunctionWithoutDict f.function.signature.qualifiedName)), s)
  /-- The call is too deep inside other calls. -/
  | tooDeep : s.session.maxCallDepth ≤ s.session.vars.depth →
      CallCourse n s f args site (.failed (.eval .callDepthExceeded), s)
  /-- A default has no value, and the call ends there with whatever that was.  No other default
  and nothing of the body has run. -/
  | stops {before after : List (String × Expr)} {p : String} {default : Expr}
      {values : List Value} {t u : State} {r : Outcome Value} :
      f.function.signature.missing args = before ++ (p, default) :: after →
      FillsIn (callFunction n) s f (f.function.signature.passed args) before
        ((s.enter f).bindAll (f.function.signature.passed args)) values t →
      default.evaluate (callFunction n) t = (r, u) → (∀ v, r ≠ .value v) →
      CallCourse n s f args site (r, u.leave)
  /-- All defaults that are needed have values, and the body starts. -/
  | starts {values : List Value} {t u : State} {r : Outcome Value × State} :
      FillsIn (callFunction n) s f (f.function.signature.passed args)
        (f.function.signature.missing args)
        ((s.enter f).bindAll (f.function.signature.passed args)) values t →
      u.HasArguments f.function.signature args values →
      runBound (callFunction n) n f.function
        (LineSpan.ofCall f.function.signature.flags site.range s.currentLine) u = r →
      CallCourse n s f args site (r.1, r.2.leave)

/-- A call that has a value has started its body. -/
theorem CallCourse.starts_of_value {n : Nat} {s : State} {f : DefinedFunction}
    {args : List Value} {site : CallSite} {result : Outcome Value × State} {v : Value}
    (h : CallCourse n s f args site result) (hv : result.1 = .value v) :
    ∃ values t u,
      FillsIn (callFunction n) s f (f.function.signature.passed args)
        (f.function.signature.missing args)
        ((s.enter f).bindAll (f.function.signature.passed args)) values t ∧
      u.HasArguments f.function.signature args values ∧
      let rest := runBound (callFunction n) n f.function
        (LineSpan.ofCall f.function.signature.flags site.range s.currentLine) u
      result = (rest.1, rest.2.leave) := by
  cases h with
  | withoutDict | tooDeep => cases hv
  | stops _ _ _ hcut => exact absurd hv (hcut v)
  | starts hfills harguments hrun => exact ⟨_, _, _, hfills, harguments, by rw [hrun]⟩

/-- What has been bound before a body starts is what the body finds. -/
theorem State.Inside.hasArguments {s u : State} {f : DefinedFunction} {args values : List Value}
    {extra : List (String × Value)} (hq : f.function.signature.Distinct)
    (hleast : f.function.signature.required.length ≤ args.length)
    (hvalues : values.length = (f.function.signature.missing args).length)
    (hextra : f.function.signature.Extra u.session.heap (f.function.signature.surplus args) extra)
    (hu : u.Inside s f (f.function.signature.passed args ++
      ((f.function.signature.missing args).map Prod.fst).zip values ++ extra))
    (range : LineRange) (dict : Option DictRef) :
    (u.ready range dict).HasArguments f.function.signature args values := by
  have hready := hu.ready range dict
  rw [List.append_assoc] at hready
  refine ⟨hvalues, fun t ht e he => ?_, fun hvariadic => ?_⟩
  · have hbound : t.Inside s f ([] ++ _) := hready.of_frames ht
    have hnames := f.function.signature.map_fst_passed_append hleast hvalues
    exact hbound.lookup (hq.nodup_names hnames hextra range) (List.mem_append_left _ he)
  · obtain ⟨r, hr, -, hitems⟩ := (if_pos hvariadic).mp hextra
    exact ⟨r, hitems, fun t ht => (hready.of_frames ht).hasSurplus hextra hr⟩

/-- **Arguments.**  The parameters of a registered function have different names, and none is a
numeral or the name of a line of the call.

A call with too few arguments, or with too many for a function that is not variadic, fails and
has done nothing.  So does one without the dictionary that the function asks for, and one too
deep inside other calls.  Otherwise the arguments are bound in the frame of the call, those
without a parameter being surplus.  The parameters that are left out are given the values of
their defaults, and each default is evaluated inside the call, when exactly the parameters
before it are bound.  If one of them has no value, then the call ends there with whatever that
was: no other default and nothing of the body has run.

If all have values, the body starts, and as long as the frame of the call is the innermost one
and as it was then, each parameter holds its argument or the value of its default.  In a variadic
function also `a:000` is a list of exactly the surplus arguments, `a:0` is their number, and
`a:1` and so on are the surplus arguments themselves. -/
theorem callFunction_binds {n : Nat} {s : State} {name : String} {f : DefinedFunction}
    (hf : s.session.functions.get? name = some f) (hq : f.function.signature.Distinct)
    (args : List Value) (site : CallSite) :
    let q := f.function.signature
    let run := callFunction (n + 1) name args site s
    (args.length < q.required.length →
      run = (.failed (.eval (.arity (.tooFew q.qualifiedName q.required.length args.length))),
        s)) ∧
    (q.variadic = false → q.parameters.length < args.length →
      run = (.failed (.eval (.arity (.tooMany q.qualifiedName q.parameters.length args.length))),
        s)) ∧
    (q.required.length ≤ args.length → (q.variadic = false → args.length ≤ q.parameters.length) →
      CallCourse n s f args site run) := by
  intro q run
  have hrefused (e : EvalError) (he : checkCall s q args site = .error e) :
      run = (.failed (.eval e), s) :=
    (callFunction_of_registered hf args site).trans (invoke_of_refused he _ _)
  refine ⟨fun h => hrefused _ (checkCall_of_tooFew h),
    fun hvariadic h => hrefused _ (checkCall_of_tooMany hvariadic h), fun hleast hmost => ?_⟩
  have hcheck : checkCall s q args site = _ := checkCall_of_bounds hleast hmost
  -- the two other reasons to refuse a call, in their order
  by_cases hdict : q.flags.dict = true ∧ site.dict = none
  · rw [hrefused _ (hcheck.trans (if_pos hdict))]
    exact .withoutDict hdict.1 hdict.2
  by_cases hdepth : s.session.maxCallDepth ≤ s.session.vars.depth
  · rw [hrefused _ (hcheck.trans ((if_neg hdict).trans (if_pos hdepth)))]
    exact .tooDeep hdepth
  have haccepted : checkCall s q args site = .ok () :=
    hcheck.trans ((if_neg hdict).trans (if_neg hdepth))
  let span := LineSpan.ofCall q.flags site.range s.currentLine
  show CallCourse n s f args site (callFunction (n + 1) name args site s)
  rw [callFunction_of_accepted hf haccepted (show _ = span from rfl)]
  have hcourse := bindArguments_course (confined_callFunction n) (s := s) hleast
  generalize hbind : bindArguments (callFunction n) q args (s.enter f) = bound at hcourse
  cases hcourse with
  | bound hfills hextra hinside =>
    have harguments :=
      hinside.hasArguments hq hleast hfills.length_eq hextra span.range site.dict
    exact .starts hfills harguments (runInvocation_of_bound hbind hinside n site.dict span).symm
  | @stopped _ _ _ _ _ t u r hmissing hfills hr hcut =>
    have hinvocation : runInvocation (callFunction n) n f.function args site.dict span
        (s.enter f) = (r, u) := by
      rw [← Outcome.passOn_self hcut, ← Outcome.passOn_passOn]
      exact Interp.bind_of_cut hbind (Outcome.passOn_ne_value r) _
    rw [hinvocation]
    exact .stops hmissing hfills hr hcut

/-- A call that leaves out a parameter whose default is the parameter before it, and a call that
passes an argument more than there are parameters. -/
theorem callFunction_binds_of_default :
    let q : Signature :=
      { Signature.named "F" with
        required := ["x"]
        optional := [("y", .variable ⟨some .arguments, "x"⟩)]
        variadic := true }
    let f : DefinedFunction := ⟨⟨q, []⟩, none⟩
    let s : State := .knowing f
    let rest (u : State) := runBound (callFunction 1) 1 f.function
      (LineSpan.ofCall q.flags none s.currentLine) u
    s.session.functions.get? "F" = some f ∧ q.Distinct ∧
      (∃ (u : State) (r : ListRef),
        callFunction 2 "F" [.integer 7] {} s = ((rest u).1, (rest u).2.leave) ∧
        u.lookup ⟨some .arguments, "x"⟩ = some (.integer 7) ∧
        u.lookup ⟨some .arguments, "y"⟩ = some (.integer 7) ∧
        u.lookup ⟨some .arguments, "000"⟩ = some (.list r) ∧ u.session.heap.items r = []) ∧
      ∃ (u : State) (r : ListRef),
        callFunction 2 "F" [.integer 7, .integer 8, .integer 9] {} s =
          ((rest u).1, (rest u).2.leave) ∧
        u.lookup ⟨some .arguments, "x"⟩ = some (.integer 7) ∧
        u.lookup ⟨some .arguments, "y"⟩ = some (.integer 8) ∧
        u.lookup ⟨some .arguments, "000"⟩ = some (.list r) ∧
        u.session.heap.items r = [.integer 9] ∧
        u.lookup ⟨some .arguments, "0"⟩ = some (.integer 1) ∧
        u.lookup ⟨some .arguments, "1"⟩ = some (.integer 9) := by
  intro q f s rest
  have hf : s.session.functions.get? "F" = some f := rfl
  have hq : q.Distinct :=
    ⟨by decide,
      List.forall_mem_cons.mpr ⟨fun h => absurd (h.2 'x' (by decide)) (by decide),
        List.forall_mem_singleton.mpr fun h => absurd (h.2 'y' (by decide)) (by decide)⟩,
      by decide⟩
  -- neither number of arguments is too small, and a variadic function takes any more
  have hcourse (args : List Value) (hleast : q.required.length ≤ args.length) :
      CallCourse 1 s f args {} (callFunction 2 "F" args {} s) :=
    (callFunction_binds hf hq args {}).2.2 hleast fun h => nomatch h
  refine ⟨hf, hq, ?_, ?_⟩
  · obtain ⟨values, t, u, hfills, hu, hrun⟩ :=
      (hcourse [.integer 7] (by decide)).starts_of_value (v := .integer 0) rfl
    -- the default is the argument that has been bound before it
    have hvalues : values = [.integer 7] := by
      cases hfills with
      | cons _ hr hrest =>
        cases hr
        cases hrest
        rfl
    subst hvalues
    obtain ⟨r, hitems, hsurplus⟩ := hu.surplus rfl
    exact ⟨u, r, hrun, hu.parameter u rfl ("x", .integer 7) List.mem_cons_self,
      hu.parameter u rfl ("y", .integer 7) (List.mem_cons_of_mem _ List.mem_cons_self),
      (hsurplus u rfl).list, hitems⟩
  · obtain ⟨values, t, u, hfills, hu, hrun⟩ :=
      (hcourse [.integer 7, .integer 8, .integer 9] (by decide)).starts_of_value
        (v := .integer 0) rfl
    obtain ⟨r, hitems, hsurplus⟩ := hu.surplus rfl
    have hargs := hsurplus u rfl
    obtain ⟨i, hcount, hi⟩ := hargs.count
    have hone : i = 1 := Int64.toInt_inj.mp (hi (by decide))
    exact ⟨u, r, hrun, hu.parameter u rfl ("x", .integer 7) List.mem_cons_self,
      hu.parameter u rfl ("y", .integer 8) (List.mem_cons_of_mem _ List.mem_cons_self),
      hargs.list, hitems, hone ▸ hcount, hargs.element 0 (.integer 9) rfl⟩

end ModalScript
