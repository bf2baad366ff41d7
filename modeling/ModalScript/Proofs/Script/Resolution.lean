/-
Which function a call reaches.

A call of a name may be handed over to another name: a variable holds a reference to it, or
the built-in function `call` is asked for it.  Such a hop (`Request.hop`) makes no frame and
changes nothing, so that all hops of a call are decided by the state in which it is made.
They are a walk through finitely many requests, because whatever a request consists of is
in the request at the start, in a variable or in a list.  So the hops come to an end, or a
request comes back and they go in a circle.

Main result: `Request.resolves_iff`.  The hops of a call come to an end just when no request
comes back, and a call whose hops do not end is cut off whatever the fuel is: the bound on
the depth of calls never sees it.  There are such calls (`Request.not_resolves_of_circle`).
-/
import Mathlib.Data.Set.Finite.Basic
import Mathlib.Data.Set.Finite.List
import ModalScript.Proofs.Script.Parts

namespace ModalScript

/-- What comes behind a result that is there already runs in the same state. -/
theorem Interp.ofExcept_bind {α β : Type} (answer : Except EvalError α) (f : α → Interp β)
    (s : State) :
    (Interp.ofExcept answer >>= f) s =
      match answer with
      | .ok a => f a s
      | .error e => (.failed (.eval e), s) := by
  cases answer <;> rfl

/-! ### References -/

/-- A name that means a reference is a variable that holds it. -/
theorem Callee.lookup_of_ofName {s : State} {name target : String}
    (h : Callee.ofName s name = .reference target) :
    s.lookup (.parse name) = some (.funcref target) := by
  unfold Callee.ofName at h
  split at h
  · cases h
  · cases h
  · split at h
    · next hlookup =>
      split at h
      · cases h
      · cases h
        exact hlookup
    · cases h

/-! ### Requests and hops -/

/-- A call that is to be made. -/
structure Request where
  name : String
  args : List Value
  site : CallSite

namespace Request

variable {s : State} {r r' q : Request}

/-- Makes the call. -/
def make (call : Caller) (r : Request) : Interp Value :=
  call r.name r.args r.site

/-- What the built-in function `call` asks for. -/
def asked (h : Heap) (args : List Value) (site : CallSite) : Except EvalError Request := do
  let name ← Builtin.calledName (args[0]?.getD (Value.integer 0))
  let list ← (args[1]?.getD (Value.integer 0)).toList
  let dict ← match args[2]? with
    | some v => some <$> v.toDict
    | none => pure site.dict
  return ⟨name, h.items list, { site with dict }⟩

/-- The same, if the number of its arguments is right. -/
def forwarded (h : Heap) (args : List Value) (site : CallSite) : Except EvalError Request :=
  match checkArity Builtin.call.name Builtin.call.arity.1 (some Builtin.call.arity.2)
    args.length with
  | .ok () => asked h args site
  | .error e => .error (.arity e)

/-- The request to which a request is handed over, if it is. -/
def hop (s : State) (r : Request) : Option Request :=
  match Callee.ofName s r.name with
  | .reference target => some { r with name := target }
  | .builtin .call => (forwarded s.session.heap r.args r.site).toOption
  | _ => none

/-- The request after so many hops, if there are so many. -/
def hops (s : State) : Nat → Request → Option Request
  | 0, r => some r
  | n + 1, r => (r.hop s).bind (hops s n)

/-- Hops are made one after the other. -/
theorem hops_add (m n : Nat) (r : Request) : hops s (m + n) r = (hops s m r).bind (hops s n) := by
  induction m generalizing r with
  | zero => rw [Nat.zero_add, hops, Option.bind_some]
  | succ m ih =>
    rw [Nat.succ_add, hops, hops]
    cases r.hop s with
    | none => rfl
    | some r' => exact ih r'

theorem hops_succ_of_hops {n : Nat} (h : hops s n r = some r') : hops s (n + 1) r = r'.hop s := by
  rw [hops_add, h, Option.bind_some, hops]
  cases r'.hop s <;> rfl

/-! ### Calls make hops -/

/-- By itself `call` only finds out what it is asked for. -/
theorem apply_call (call : Caller) (args : List Value) (site : CallSite) (s : State) :
    Builtin.call.apply call args site s =
      match asked s.session.heap args site with
      | .ok r => r.make call s
      | .error e => (.failed (.eval e), s) := by
  simp only [Builtin.apply, asked]
  rw [Interp.ofExcept_bind]
  -- the name, the list of arguments and the dictionary, each of which may be wrong
  cases Builtin.calledName (args[0]?.getD (Value.integer 0)) with
  | error e => rfl
  | ok name =>
    show (Interp.ofExcept ((args[1]?.getD (Value.integer 0)).toList.map
      s.session.heap.items) >>= _) s = _
    rw [Interp.ofExcept_bind]
    cases (args[1]?.getD (Value.integer 0)).toList with
    | error e => rfl
    | ok list =>
      cases args[2]? with
      | none => rfl
      | some v => cases v <;> rfl

/-- The built-in function `call` fails or hands over, and changes nothing by itself. -/
theorem run_call (call : Caller) (args : List Value) (site : CallSite) (s : State) :
    Builtin.call.run call args site s =
      match forwarded s.session.heap args site with
      | .ok r => r.make call s
      | .error e => (.failed (.eval e), s) := by
  simp only [Builtin.run, forwarded]
  cases checkArity Builtin.call.name Builtin.call.arity.1 (some Builtin.call.arity.2)
    args.length with
  | error e => rfl
  | ok => exact apply_call call args site s

theorem make_callStep (call : Caller) (fuel : Nat) (r : Request) (s : State) :
    r.make (callStep call fuel) s =
      (Callee.ofName s r.name).enter call fuel r.name r.args r.site s :=
  rfl

/-- A call that is handed over is the call to which it is handed over. -/
theorem make_of_hop (h : r.hop s = some r') (call : Caller) (fuel : Nat) :
    r.make (callStep call fuel) s = r'.make call s := by
  rw [make_callStep]
  unfold hop at h
  split at h
  · -- a variable that holds a reference
    next target hname =>
    cases h
    rw [hname]
    rfl
  · next hname =>
    rw [hname]
    show Builtin.call.run call r.args r.site s = r'.make call s
    rw [run_call]
    cases hforwarded : forwarded s.session.heap r.args r.site with
    | ok q =>
      rw [hforwarded] at h
      cases h
      rfl
    | error e =>
      rw [hforwarded] at h
      cases h
  · cases h

/-- So is a call after several hops, if there is as much more fuel. -/
theorem make_of_hops {n : Nat} (h : hops s n r = some r') (fuel : Nat) :
    r.make (callFunction (n + fuel)) s = r'.make (callFunction fuel) s := by
  induction n generalizing r with
  | zero =>
    cases h
    rw [Nat.zero_add]
  | succ n ih =>
    obtain ⟨q, hq, hrest⟩ := Option.bind_eq_some_iff.mp h
    rw [Nat.succ_add]
    exact (make_of_hop hq _ _).trans (ih hrest)

/-- A call that is not handed over: it enters a user-defined function, or runs a built-in one
other than `call`, or fails at once, and no call inside it is made. -/
def Lands (s : State) (r : Request) : Prop :=
  (∃ f, Callee.ofName s r.name = .user f) ∨
  (∃ b, b ≠ .call ∧ Callee.ofName s r.name = .builtin b) ∨
  ∃ e, ∀ call fuel, r.make (callStep call fuel) s = (.failed (.eval e), s)

/-- A request is not handed over just if there is no hop. -/
theorem lands_iff : r.Lands s ↔ r.hop s = none := by
  constructor
  · rintro (⟨f, hname⟩ | ⟨b, hb, hname⟩ | ⟨e, hfail⟩)
    · simp only [hop, hname]
    · cases b with
      | call => exact absurd rfl hb
      | _ => simp only [hop, hname]
    · -- with a caller that is cut off, a hop would be cut off instead
      cases hhop : r.hop s with
      | none => rfl
      | some r' =>
        have hcut : r.make (callStep (fun _ _ _ => .exhausted) 0) s = (.outOfFuel, s) :=
          make_of_hop hhop _ _
        rw [hfail] at hcut
        cases hcut
  · intro h
    cases hname : Callee.ofName s r.name with
    | user f => exact .inl ⟨f, hname⟩
    | reference target =>
      simp only [hop, hname] at h
      cases h
    | unknown =>
      refine .inr (.inr ⟨.unknownFunction r.name, fun call fuel => ?_⟩)
      rw [make_callStep, hname]
      rfl
    | builtin b =>
      by_cases hb : b = .call
      · subst hb
        simp only [hop, hname] at h
        cases hforwarded : forwarded s.session.heap r.args r.site with
        | ok q =>
          rw [hforwarded] at h
          cases h
        | error e =>
          refine .inr (.inr ⟨e, fun call fuel => ?_⟩)
          rw [make_callStep, hname]
          show Builtin.call.run _ r.args r.site s = _
          rw [run_call, hforwarded]
      · exact .inr (.inl ⟨b, hb, hname⟩)

end Request

/-! ### There are finitely many requests -/

namespace Variables

variable {vs : Variables} {id : EditorId} {x : Value}

/-- The dictionaries in which a running function may find a variable. -/
def tablesOf (vs : Variables) (f : Frame) : List (Dict Value) :=
  f.arguments :: vs.localTable f.locals :: (f.captured.map vs.localTable).toList

/-- The dictionaries in which an editor may find a variable. -/
def visible (vs : Variables) (id : EditorId) : List (Dict Value) :=
  vs.globals :: vs.script :: vs.builtins ::
    (vs.frame?.toList.flatMap vs.tablesOf ++
      ((vs.buffers.get? id).toList ++ ((vs.windows.get? id).toList ++ (vs.tabs.get? id).toList)))

/-- In a frame a variable is looked for among the arguments, the local variables and the captured
ones. -/
theorem exists_tablesOf_of_inFrame? {f : Frame} {name : String}
    (h : vs.inFrame? f name = some x) : ∃ d ∈ vs.tablesOf f, d.get? name = some x := by
  rcases Option.or_eq_some_iff.mp h with h | ⟨-, h⟩
  · exact ⟨_, List.mem_cons_of_mem _ List.mem_cons_self, h⟩
  · rcases Option.or_eq_some_iff.mp h with h | ⟨-, h⟩
    · exact ⟨_, List.mem_cons_self, h⟩
    · obtain ⟨r, hr, hx⟩ := Option.bind_eq_some_iff.mp h
      refine ⟨vs.localTable r, ?_, hx⟩
      simp [tablesOf, hr]

/-- What a variable holds is in one of the dictionaries. -/
theorem exists_visible_of_get? {v : VariableName} (h : vs.get? v id = some x) :
    ∃ d ∈ vs.visible id, d.get? v.name = some x := by
  have hframe {f : Frame} {d : Dict Value} (hf : vs.frame? = some f) (hd : d ∈ vs.tablesOf f) :
      d ∈ vs.visible id := by
    have hmem : d ∈ vs.frame?.toList.flatMap vs.tablesOf := by
      rw [hf]
      exact List.mem_flatMap.mpr ⟨f, List.mem_singleton_self f, hd⟩
    simp only [visible, List.mem_cons, List.mem_append]
    exact .inr (.inr (.inr (.inl hmem)))
  have heditor {m : PerEditor (Dict Value)}
      (hm : ∀ d, m.get? id = some d → d ∈ vs.visible id)
      (hx : ((m.get? id).bind fun d => d.get? v.name) = some x) :
      ∃ d ∈ vs.visible id, d.get? v.name = some x := by
    obtain ⟨d, hd, hx⟩ := Option.bind_eq_some_iff.mp hx
    exact ⟨d, hm d hd, hx⟩
  -- a name without a scope is looked for in the frame, and then among the globals and the built-in
  -- variables
  obtain ⟨scope, name⟩ := v
  cases scope with
  | none =>
    rcases Option.or_eq_some_iff.mp h with h | ⟨-, h⟩
    · obtain ⟨f, hf, hx⟩ := Option.bind_eq_some_iff.mp h
      obtain ⟨d, hd, hx⟩ := exists_tablesOf_of_inFrame? hx
      exact ⟨d, hframe hf hd, hx⟩
    · rcases Option.or_eq_some_iff.mp h with h | ⟨-, h⟩
      · exact ⟨_, by simp [visible], h⟩
      · exact ⟨_, by simp [visible], h⟩
  | some scope =>
    cases scope with
    | globals | script | builtins => exact ⟨_, by simp [visible], h⟩
    | arguments | locals =>
      obtain ⟨f, hf, hx⟩ := Option.bind_eq_some_iff.mp h
      exact ⟨_, hframe hf (by simp [tablesOf]), hx⟩
    | buffer | window | tab => exact heditor (fun d hd => by simp [visible, hd]) h

end Variables

namespace Request

variable {s : State} {r r' q : Request}

/-- All values that a call may come across while it is resolved. -/
def values (s : State) (r : Request) : List Value :=
  (s.session.vars.visible s.editor.id).flatMap Dict.values ++
    (s.session.heap.lists.toList.flatten ++ r.args)

/-- The names that a call may be handed over to. -/
def names (s : State) (r : Request) : List String :=
  r.name :: (r.values s).filterMap fun
    | .funcref name | .string name => some name
    | _ => none

/-- The lists of arguments that may be handed over. -/
def argLists (s : State) (r : Request) : List (List Value) :=
  r.args :: [] :: s.session.heap.lists.toList

/-- The dictionaries that a function may be called on. -/
def dicts (s : State) (r : Request) : List (Option DictRef) :=
  r.site.dict :: (r.values s).filterMap fun
    | .dict d => some (some d)
    | _ => none

/-- The requests that a call may become. -/
def Within (s : State) (r r' : Request) : Prop :=
  r'.name ∈ r.names s ∧ r'.args ∈ r.argLists s ∧ r'.site.range = r.site.range ∧
    r'.site.dict ∈ r.dicts s

/-- A request is made of a name, arguments and a dictionary, and there are finitely many of each. -/
theorem finite_within (s : State) (r : Request) : {r' | Within s r r'}.Finite := by
  have hbox := ((r.names s).finite_toSet.prod
    ((r.argLists s).finite_toSet.prod (r.dicts s).finite_toSet)).image
      fun p => (⟨p.1, p.2.1, ⟨r.site.range, p.2.2⟩⟩ : Request)
  refine hbox.subset ?_
  rintro ⟨name, args, ⟨range, dict⟩⟩ ⟨hname, hargs, hrange, hdict⟩
  obtain rfl : range = r.site.range := hrange
  exact ⟨(name, args, dict), ⟨hname, hargs, hdict⟩, rfl⟩

theorem within_self (s : State) (r : Request) : Within s r r :=
  ⟨List.mem_cons_self, List.mem_cons_self, rfl, List.mem_cons_self⟩

/-- What a variable holds is one of the values that a call may come across. -/
theorem mem_values_of_lookup {v : VariableName} {x : Value} (h : s.lookup v = some x) :
    x ∈ r.values s := by
  obtain ⟨d, hd, hx⟩ := Variables.exists_visible_of_get? h
  have hvalues : x ∈ d.values :=
    List.mem_map.mpr ⟨(v.name, x), Dict.get?_eq_some_iff.mp hx, rfl⟩
  exact List.mem_append_left _ (List.mem_flatMap.mpr ⟨d, hd, hvalues⟩)

/-- So are the elements of any list, as arguments. -/
theorem items_mem_argLists (s : State) (r : Request) (list : ListRef) :
    s.session.heap.items list ∈ r.argLists s := by
  unfold Heap.items
  cases hlist : s.session.heap.lists[list.slot]? with
  | none => exact List.mem_cons_of_mem _ List.mem_cons_self
  | some vs =>
    have hmem : vs ∈ s.session.heap.lists.toList :=
      Array.mem_toList_iff.mpr (Array.mem_of_getElem? hlist)
    exact List.mem_cons_of_mem _ (List.mem_cons_of_mem _ hmem)

theorem Within.mem_values {v : Value} (h : Within s r r') (hv : v ∈ r'.args) :
    v ∈ r.values s := by
  obtain ⟨-, hargs, -⟩ := h
  refine List.mem_append_right _ ?_
  rcases List.mem_cons.mp hargs with hargs | hargs
  · rw [hargs] at hv
    exact List.mem_append_right _ hv
  · rcases List.mem_cons.mp hargs with hargs | hargs
    · rw [hargs] at hv
      cases hv
    · exact List.mem_append_left _ (List.mem_flatten.mpr ⟨_, hargs, hv⟩)

/-- What can be called by a value is named by one of the values. -/
theorem mem_names_of_calledName {v : Value} {name : String} (hv : v ∈ r.values s)
    (hname : Builtin.calledName v = .ok name) : name ∈ r.names s := by
  refine List.mem_cons_of_mem _ (List.mem_filterMap.mpr ⟨v, hv, ?_⟩)
  cases v with
  | funcref | string =>
    cases hname
    rfl
  | integer | float | list | dict => cases hname

/-- An argument by which something can be called has been given. -/
theorem mem_args_of_calledName {args : List Value} {i : Nat} {name : String}
    (hname : Builtin.calledName (args[i]?.getD (Value.integer 0)) = .ok name) :
    args[i]?.getD (Value.integer 0) ∈ args := by
  cases harg : args[i]? with
  | none =>
    rw [harg] at hname
    cases hname
  | some v => exact List.mem_of_getElem? harg

/-- What `call` asks for, taken apart. -/
theorem asked_eq_ok {h : Heap} {args : List Value} {site : CallSite}
    (hq : asked h args site = .ok q) :
    Builtin.calledName (args[0]?.getD (Value.integer 0)) = .ok q.name ∧
      (∃ list, q.args = h.items list) ∧ q.site.range = site.range ∧
      (q.site.dict = site.dict ∨ ∃ d, q.site.dict = some d ∧ Value.dict d ∈ args) := by
  unfold asked at hq
  cases hname : Builtin.calledName (args[0]?.getD (Value.integer 0)) with
  | error e =>
    rw [hname] at hq
    cases hq
  | ok name =>
    rw [hname] at hq
    cases hlist : (args[1]?.getD (Value.integer 0)).toList with
    | error e =>
      rw [hlist] at hq
      cases hq
    | ok list =>
      rw [hlist] at hq
      cases hdict : args[2]? with
      | none =>
        rw [hdict] at hq
        cases hq
        exact ⟨rfl, ⟨list, rfl⟩, rfl, .inl rfl⟩
      | some v =>
        rw [hdict] at hq
        cases v with
        | dict d =>
          cases hq
          exact ⟨rfl, ⟨list, rfl⟩, rfl, .inr ⟨d, rfl, List.mem_of_getElem? hdict⟩⟩
        | integer | float | string | list | funcref => cases hq

theorem Within.asked (h : Within s r r')
    (hq : asked s.session.heap r'.args r'.site = .ok q) : Within s r q := by
  obtain ⟨hname, ⟨list, hargs⟩, hrange, hdict⟩ := asked_eq_ok hq
  have hcalled : q.name ∈ r.names s :=
    mem_names_of_calledName (h.mem_values (mem_args_of_calledName hname)) hname
  have hitems : q.args ∈ r.argLists s := by
    rw [hargs]
    exact items_mem_argLists s r list
  refine ⟨hcalled, hitems, hrange.trans h.2.2.1, ?_⟩
  rcases hdict with hdict | ⟨d, hdict, hd⟩
  · rw [hdict]
    exact h.2.2.2
  · rw [hdict]
    exact List.mem_cons_of_mem _ (List.mem_filterMap.mpr ⟨.dict d, h.mem_values hd, rfl⟩)

/-- A hop leads to such a request again. -/
theorem Within.hop (h : Within s r r') (hhop : r'.hop s = some q) : Within s r q := by
  unfold Request.hop at hhop
  split at hhop
  · next target hname =>
    cases hhop
    have htarget : target ∈ r.names s :=
      List.mem_cons_of_mem _ (List.mem_filterMap.mpr
        ⟨.funcref target, mem_values_of_lookup (Callee.lookup_of_ofName hname), rfl⟩)
    exact ⟨htarget, h.2⟩
  · -- the built-in function `call`
    cases hforwarded : forwarded s.session.heap r'.args r'.site with
    | error e =>
      rw [hforwarded] at hhop
      cases hhop
    | ok q' =>
      rw [hforwarded] at hhop
      cases hhop
      unfold forwarded at hforwarded
      split at hforwarded
      · exact h.asked hforwarded
      · cases hforwarded
  · cases hhop

/-- So do several hops. -/
theorem Within.hops {n : Nat} (h : Within s r r') (hhops : hops s n r' = some q) :
    Within s r q := by
  induction n generalizing r' with
  | zero =>
    cases hhops
    exact h
  | succ n ih =>
    obtain ⟨q', hq', hrest⟩ := Option.bind_eq_some_iff.mp hhops
    exact ih (h.hop hq') hrest

/-! ### Hops end or go in a circle -/

/-- The hops of the call come to an end. -/
def Resolves (s : State) (r : Request) : Prop :=
  ∃ n r', hops s n r = some r' ∧ r'.Lands s

/-- Where a request comes back, there is no end. -/
theorem not_resolves_of_eq {m n : Nat} (hlt : m < n) (hm : hops s m r = some r')
    (hn : hops s n r = some r') : ¬ r.Resolves s := by
  rintro ⟨k, q, hk, hland⟩
  -- behind the end there are no more hops
  have hnone (j : Nat) : hops s (k + 1 + j) r = none := by
    rw [hops_add, hops_succ_of_hops hk, lands_iff.mp hland, Option.bind_none]
  have hle : n ≤ k := by
    by_contra hlt
    obtain ⟨j, hj⟩ := Nat.exists_eq_add_of_le (Nat.lt_of_not_le hlt)
    rw [hj, hnone] at hn
    cases hn
  -- from the second time on the walk is what it was from the first time on
  have hend : hops s (k - m) r' = some q := by
    have hsplit := hops_add (s := s) m (k - m) r
    rw [hm, Option.bind_some, Nat.add_sub_cancel' (by omega), hk] at hsplit
    exact hsplit.symm
  have hagain : hops s (n + (k - m)) r = some q := by
    rw [hops_add, hn, Option.bind_some, hend]
  obtain ⟨j, hj⟩ := Nat.exists_eq_add_of_le (show k + 1 ≤ n + (k - m) by omega)
  rw [hj, hnone] at hagain
  cases hagain

/-- Where no request comes back, there is an end, since there are finitely many. -/
theorem resolves_of_injective
    (h : ∀ m n r', hops s m r = some r' → hops s n r = some r' → m = n) : r.Resolves s := by
  by_contra hresolves
  have hwalk (n : Nat) : ∃ r', hops s n r = some r' := by
    induction n with
    | zero => exact ⟨r, rfl⟩
    | succ n ih =>
      obtain ⟨r', hr'⟩ := ih
      rw [hops_succ_of_hops hr']
      cases hhop : r'.hop s with
      | none => exact absurd ⟨n, r', hr', lands_iff.mpr hhop⟩ hresolves
      | some q => exact ⟨q, rfl⟩
  -- the requests of an endless walk are different, but all of one finite set
  choose f hf using hwalk
  have hinjective : Function.Injective f := by
    intro m n he
    exact h m n (f m) (hf m) (he ▸ hf n)
  exact Set.infinite_of_injective_forall_mem hinjective
    (fun n => (within_self s r).hops (hf n)) (finite_within s r)

/-- A call whose hops do not end is cut off, whatever the fuel is, and no frame has been
made. -/
theorem outOfFuel_of_not_resolves (h : ¬ r.Resolves s) (fuel : Nat) :
    r.make (callFunction fuel) s = (.outOfFuel, s) := by
  induction fuel generalizing r with
  | zero => rfl
  | succ fuel ih =>
    cases hhop : r.hop s with
    | none => exact absurd ⟨0, r, rfl, lands_iff.mpr hhop⟩ h
    | some q =>
      -- if the rest of the walk ended, the whole walk would
      have hq : ¬ q.Resolves s := by
        rintro ⟨n, r', hn, hland⟩
        have hfirst : hops s (n + 1) r = some r' := by
          rw [hops, hhop, Option.bind_some, hn]
        exact h ⟨n + 1, r', hfirst, hland⟩
      exact (make_of_hop hhop _ _).trans (ih hq)

/-- **Call resolution** ends just when no request comes back.  Then the call is the call of
the request where it ends, which enters a user-defined function, runs a built-in one other
than `call`, or fails; otherwise it goes on for ever without making a frame. -/
theorem resolves_iff (s : State) (r : Request) :
    (r.Resolves s ↔ ∀ m n r', hops s m r = some r' → hops s n r = some r' → m = n) ∧
      (r.Resolves s → ∃ (n : Nat) (r' : Request), r'.Lands s ∧
        ∀ fuel, r.make (callFunction (n + fuel)) s = r'.make (callFunction fuel) s) ∧
      (¬ r.Resolves s → ∀ fuel, r.make (callFunction fuel) s = (.outOfFuel, s)) := by
  refine ⟨⟨?_, resolves_of_injective⟩, ?_, outOfFuel_of_not_resolves⟩
  · intro h m n r' hm hn
    rcases Nat.lt_trichotomy m n with hlt | heq | hlt
    · exact absurd h (not_resolves_of_eq hlt hm hn)
    · exact heq
    · exact absurd h (not_resolves_of_eq hlt hn hm)
  · rintro ⟨n, r', hn, hland⟩
    exact ⟨n, r', hland, make_of_hops hn⟩

/-- Two variables that refer to each other, and a list that asks `call` for `call` on the very
list: neither call resolves, and both are cut off whatever the fuel is. -/
theorem not_resolves_of_circle :
    ∃ s : State, s.session.functions = .empty ∧
      s.lookup ⟨none, "A"⟩ = some (.funcref "B") ∧ s.lookup ⟨none, "B"⟩ = some (.funcref "A") ∧
      s.session.heap.items ⟨0⟩ = [.string "call", .list ⟨0⟩] ∧
      ∀ r ∈ [(⟨"A", [], {}⟩ : Request), ⟨"call", [.string "call", .list ⟨0⟩], {}⟩],
        ¬ r.Resolves s ∧ ∀ fuel, r.make (callFunction fuel) s = (.outOfFuel, s) := by
  let s : State :=
    { session :=
        { (default : Session) with
          heap := ⟨#[[.string "call", .list ⟨0⟩]], #[]⟩
          vars :=
            { Variables.initial with
              globals := Dict.ofList [("A", .funcref "B"), ("B", .funcref "A")] }
          functions := .empty }
      editor := default }
  have hback : ∀ r ∈ [(⟨"A", [], {}⟩ : Request), ⟨"call", [.string "call", .list ⟨0⟩], {}⟩],
      hops s 2 r = some r := by
    intro r hr
    rcases List.mem_pair.mp hr with rfl | rfl
    · rfl
    · have hself : (⟨"call", [.string "call", .list ⟨0⟩], {}⟩ : Request).hop s =
          some ⟨"call", [.string "call", .list ⟨0⟩], {}⟩ := rfl
      rw [hops, hself, Option.bind_some, hops, hself, Option.bind_some, hops]
  refine ⟨s, rfl, rfl, rfl, rfl, fun r hr => ?_⟩
  have hresolves : ¬ r.Resolves s := not_resolves_of_eq (m := 0) (by decide) rfl (hback r hr)
  exact ⟨hresolves, outOfFuel_of_not_resolves hresolves⟩

end Request

end ModalScript
