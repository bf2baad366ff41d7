/-
Jumps stay in their loops.

`broken` and `continued` are signals like any others: they come out of blocks and branches,
and only a loop takes them.  `Interp.Yields` says what the values of a computation are like.
A block in which every `break` and `continue` stands in a loop never ends with a jump, whatever
fails in it and whatever it calls, and neither does a loop over any body at all.

A loop is a list of rounds, gone through up to the first one that ends the loop (`goRounds`);
the rounds of a `while` loop are all alike, and those of a `for` loop store one value each.
What a loop passes on is exactly what some round ended with, after rounds that went on
(`goRounds_eq_value_iff`).

Main result: `jumps_stay_in_loops`.
-/
import ModalScript.Proofs.Script.Bodies
import ModalScript.Proofs.Script.Parts
import ModalScript.Script.Call

namespace ModalScript

/-- Whether a signal is a jump, which is for the loop around. -/
def Signal.isJump : Signal → Bool
  | .broken | .continued => true
  | .done | .returned _ | .failed _ => false

/-- Whether a signal of its body ends a loop and is what the loop ends with. -/
def Signal.leavesLoop : Signal → Bool
  | .returned _ | .failed _ => true
  | .done | .broken | .continued => false

/-- A loop never ends with a jump. -/
theorem Signal.isJump_of_afterBody {signal signal' : Signal}
    (h : signal.afterBody = some signal') : signal'.isJump = false := by
  cases signal with
  | done | continued => cases h
  | broken | returned v | failed text =>
    cases h
    rfl

theorem Signal.afterBody_of_leavesLoop {signal : Signal} (h : signal.leavesLoop = true) :
    signal.afterBody = some signal := by
  cases signal with
  | returned v | failed text => rfl
  | done | broken | continued => cases h

/-- A loop that ends with such a signal has got it from its body. -/
theorem Signal.eq_of_afterBody {signal signal' : Signal} (h : signal.afterBody = some signal')
    (hleaves : signal'.leavesLoop = true) : signal = signal' := by
  cases signal with
  | done | continued => cases h
  | broken =>
    cases h
    cases hleaves
  | returned v | failed text => exact Option.some.inj h

/-- Only a jump is noted as one without a loop. -/
theorem Signal.isStrayJump_of_problem? {signal : Signal} {d : Diagnostic}
    (hsignal : signal.isJump = false) (hd : signal.problem? = some d) :
    d.isStrayJump = false := by
  cases signal with
  | broken | continued => cases hsignal
  | done | returned v => cases hd
  | failed text =>
    cases hd
    rfl

namespace Interp

variable {α β : Type} {P : α → Prop} {Q : β → Prop} {m : Interp α}

/-- The values of the computation are such. -/
def Yields (P : α → Prop) (m : Interp α) : Prop :=
  ∀ s a t, m s = (.value a, t) → P a

theorem yields_pure {a : α} (ha : P a) : (pure a : Interp α).Yields P := by
  intro s b t h
  cases h
  exact ha

theorem yields_fail (e : ExecError) : (fail e : Interp α).Yields P :=
  fun _ _ _ h => nomatch h

theorem yields_exhausted : (exhausted : Interp α).Yields P :=
  fun _ _ _ h => nomatch h

/-- The last of two computations decides, for the values that the first one can have. -/
theorem Yields.bind {f : α → Interp β} (hm : m.Yields P) (hf : ∀ a, P a → (f a).Yields Q) :
    (m >>= f).Yields Q := by
  intro s b t h
  obtain ⟨a, s₁, ha, hb⟩ := bind_eq_value_iff.mp h
  exact hf a (hm s a s₁ ha) s₁ b t hb

/-- The last of two computations decides, whatever the first one answers. -/
theorem yields_bind {f : α → Interp β} (hf : ∀ a, (f a).Yields Q) : (m >>= f).Yields Q :=
  Yields.bind (P := fun _ => True) (fun _ _ _ _ => trivial) fun a _ => hf a

/-- What is collected is a failure. -/
theorem Yields.collecting {P : Signal → Prop} {m : Interp Signal} (hm : m.Yields P)
    (hfailed : ∀ text, P (.failed text)) : m.collecting.Yields P := by
  intro s signal t h
  unfold Interp.collecting at h
  rcases hr : m s with ⟨r, s₁⟩
  rw [hr] at h
  cases r with
  | value signal =>
    cases h
    exact hm s _ _ hr
  | failed e =>
    simp only at h
    split at h
    · cases h
      exact hfailed _
    · cases h
  | outOfFuel => cases h

end Interp

open Interp

/-! ### Loops as lists of rounds -/

/-- Goes through rounds up to the first one that ends the loop, and then does what is left. -/
def goRounds (last : Interp Signal) : List (Interp Signal) → Interp Signal
  | [] => last
  | round :: rounds => do
    let signal ← round
    signal.thenLoop (goRounds last rounds)

/-- One round of a `while` loop; the condition that fails breaks the loop. -/
def whileRound (test : Interp Bool) (body : Interp Signal) : Interp Signal := do
  if ← test then body else pure .broken

/-- One round of a `for` loop. -/
def forRound (target : VariableName) (body : Interp Signal) (v : Value) : Interp Signal := do
  Interp.store target v
  body

/-- A `while` loop may go through so many rounds, all of them alike. -/
theorem whileLoop_eq_goRounds (test : Interp Bool) (body : Interp Signal) (fuel : Nat) :
    whileLoop test body fuel =
      goRounds exhausted (List.replicate fuel (whileRound test body)) := by
  induction fuel with
  | zero => rfl
  | succ fuel ih =>
    rw [whileLoop_succ, List.replicate_succ, goRounds, ← ih, whileRound, bind_assoc]
    refine congrArg (test >>= ·) (funext fun holds => ?_)
    cases holds with
    | true => rfl
    | false => rfl

/-- A `for` loop goes through one round for each value. -/
theorem forLoop_eq_goRounds (target : VariableName) (body : Interp Signal) (vs : List Value) :
    forLoop target body vs = goRounds (pure .done) (vs.map (forRound target body)) := by
  induction vs with
  | nil => rfl
  | cons v vs ih => rw [forLoop_cons, List.map_cons, goRounds, ← ih, forRound, bind_assoc]

/-- No round ends with a jump that gets out. -/
theorem yields_goRounds {last : Interp Signal} (hlast : last.Yields fun x => x.isJump = false)
    (rounds : List (Interp Signal)) :
    (goRounds last rounds).Yields fun x => x.isJump = false := by
  induction rounds with
  | nil => exact hlast
  | cons round rounds ih =>
    refine yields_bind fun signal => ?_
    unfold Signal.thenLoop
    cases hafter : signal.afterBody with
    | none => exact ih
    | some signal' => exact yields_pure (Signal.isJump_of_afterBody hafter)

/-- Rounds that have been gone through, none of which ended the loop. -/
inductive WentOn : List (Interp Signal) → State → State → Prop
  | nil (s : State) : WentOn [] s s
  | cons {round : Interp Signal} {rounds : List (Interp Signal)} {s t u : State}
      {signal : Signal} : round s = (.value signal, t) → signal.afterBody = none →
      WentOn rounds t u → WentOn (round :: rounds) s u

/-- What the first round ends with decides how the loop goes on. -/
theorem goRounds_cons {last round : Interp Signal} {rounds : List (Interp Signal)} {s t : State}
    {signal : Signal} (hround : round s = (.value signal, t)) :
    goRounds last (round :: rounds) s = signal.thenLoop (goRounds last rounds) t := by
  show round.andThen _ s = _
  simp only [Interp.andThen, hround]

/-- A loop passes on what a round returned or failed with, and nothing else. -/
theorem goRounds_eq_value_iff {last : Interp Signal} {signal : Signal}
    (hsignal : signal.leavesLoop = true) (hlast : last.Yields (· ≠ signal))
    {rounds : List (Interp Signal)} {s t : State} :
    goRounds last rounds s = (.value signal, t) ↔
      ∃ k round u, rounds[k]? = some round ∧ WentOn (rounds.take k) s u ∧
        round u = (.value signal, t) := by
  constructor
  · -- the round that ended the loop is searched for from the front
    intro h
    induction rounds generalizing s with
    | nil => exact absurd rfl (hlast s signal t h)
    | cons round rounds ih =>
      obtain ⟨signal₁, s₁, hr, hrest⟩ := bind_eq_value_iff.mp h
      unfold Signal.thenLoop at hrest
      cases hafter : signal₁.afterBody with
      | none =>
        rw [hafter] at hrest
        obtain ⟨k, round', u, hk, hbefore, hround⟩ := ih hrest
        exact ⟨k + 1, round', u, hk, .cons hr hafter hbefore, hround⟩
      | some signal₂ =>
        rw [hafter] at hrest
        cases hrest
        -- the loop ends with what this round ended with
        obtain rfl := Signal.eq_of_afterBody hafter hsignal
        exact ⟨0, round, s, rfl, .nil s, hr⟩
  · rintro ⟨k, round, u, hk, hbefore, hround⟩
    induction rounds generalizing k s with
    | nil => cases hk
    | cons round₁ rounds ih =>
      cases k with
      | zero =>
        cases hk
        cases hbefore
        rw [goRounds_cons hround, Signal.thenLoop, Signal.afterBody_of_leavesLoop hsignal]
        rfl
      | succ k =>
        rw [List.take_succ_cons] at hbefore
        cases hbefore with
        | cons hr hafter hbefore =>
          rw [goRounds_cons hr, Signal.thenLoop, hafter]
          exact ih k hk hbefore

/-- What a round of a `while` loop returns or fails with is what its body does. -/
theorem whileRound_eq_value_iff {test : Interp Bool} {body : Interp Signal} {signal : Signal}
    (hsignal : signal.leavesLoop = true) {s t : State} :
    whileRound test body s = (.value signal, t) ↔
      ∃ s₁, test s = (.value true, s₁) ∧ body s₁ = (.value signal, t) := by
  rw [whileRound, bind_eq_value_iff]
  constructor
  · rintro ⟨holds, s₁, htest, h⟩
    cases holds with
    | true => exact ⟨s₁, htest, h⟩
    | false =>
      -- the condition that fails breaks the loop, and that is not passed on
      cases h
      cases hsignal
  · rintro ⟨s₁, htest, h⟩
    exact ⟨true, s₁, htest, h⟩

/-- A `while` loop passes on what its body ended with in a round whose condition held. -/
theorem whileLoop_eq_value_iff {test : Interp Bool} {body : Interp Signal} {fuel : Nat}
    {signal : Signal} (hsignal : signal.leavesLoop = true) {s t : State} :
    whileLoop test body fuel s = (.value signal, t) ↔
      ∃ k < fuel, ∃ u u₁, WentOn (List.replicate k (whileRound test body)) s u ∧
        test u = (.value true, u₁) ∧ body u₁ = (.value signal, t) := by
  rw [whileLoop_eq_goRounds, goRounds_eq_value_iff hsignal yields_exhausted]
  constructor
  · rintro ⟨k, round, u, hk, hbefore, h⟩
    -- the round in question is one of those for which there is fuel
    rw [List.getElem?_replicate] at hk
    split at hk
    · next hfuel =>
      cases hk
      rw [List.take_replicate, Nat.min_eq_left (Nat.le_of_lt hfuel)] at hbefore
      obtain ⟨u₁, htest, hbody⟩ := (whileRound_eq_value_iff hsignal).mp h
      exact ⟨k, hfuel, u, u₁, hbefore, htest, hbody⟩
    · cases hk
  · rintro ⟨k, hfuel, u, u₁, hbefore, h⟩
    refine ⟨k, whileRound test body, u, ?_, ?_, (whileRound_eq_value_iff hsignal).mpr ⟨u₁, h⟩⟩
    · rw [List.getElem?_replicate, if_pos hfuel]
    · rwa [List.take_replicate, Nat.min_eq_left (Nat.le_of_lt hfuel)]

/-- A `for` loop passes on what its body ended with for one of the values. -/
theorem forLoop_eq_value_iff {target : VariableName} {body : Interp Signal} {vs : List Value}
    {signal : Signal} (hsignal : signal.leavesLoop = true) {s t : State} :
    forLoop target body vs s = (.value signal, t) ↔
      ∃ k v u, vs[k]? = some v ∧ WentOn ((vs.take k).map (forRound target body)) s u ∧
        forRound target body v u = (.value signal, t) := by
  have hdone : (pure .done : Interp Signal).Yields (· ≠ signal) := by
    refine yields_pure fun h => ?_
    rw [← h] at hsignal
    cases hsignal
  rw [forLoop_eq_goRounds, goRounds_eq_value_iff hsignal hdone]
  simp only [List.getElem?_map, Option.map_eq_some_iff, List.map_take]
  constructor
  · rintro ⟨k, _, u, ⟨v, hv, rfl⟩, h⟩
    exact ⟨k, v, u, hv, h⟩
  · rintro ⟨k, v, u, hv, h⟩
    exact ⟨k, _, u, ⟨v, hv, rfl⟩, h⟩

/-! ### Jumps in blocks -/

namespace Statement

mutual

/-- Whether each jump in the statement stands in a loop of the statement.  The body of a
function that it defines is a body of its own, and does not count. -/
def jumpsInLoops : Statement → Bool
  | .breakLoop | .continueLoop => false
  | .branch cases otherwise => jumpsInLoopsCases cases && jumpsInLoopsBlock otherwise
  | _ => true

/-- Whether each jump in the statements stands in a loop of these statements. -/
def jumpsInLoopsBlock : List Statement → Bool
  | [] => true
  | st :: sts => jumpsInLoops st && jumpsInLoopsBlock sts

/-- Whether each jump in the blocks stands in a loop of its block. -/
def jumpsInLoopsCases : List (Expr × List Statement) → Bool
  | [] => true
  | (_, block) :: cases => jumpsInLoopsBlock block && jumpsInLoopsCases cases

end

/-- Where it holds of statements it holds of each of them. -/
theorem jumpsInLoops_of_mem {st : Statement} {sts : List Statement} (hst : st ∈ sts)
    (hsts : jumpsInLoopsBlock sts = true) : st.jumpsInLoops = true := by
  induction sts with
  | nil => cases hst
  | cons st' sts ih =>
    rw [jumpsInLoopsBlock, Bool.and_eq_true] at hsts
    rcases List.mem_cons.mp hst with rfl | hst
    · exact hsts.1
    · exact ih hst hsts.2

variable (call : Caller) (fuel : Nat)

/-- A loop takes the jumps of its body, whatever that is. -/
theorem yields_execute_of_loop (st : Statement)
    (hst : (∃ test body, st = .whileLoop test body) ∨
      ∃ target items body, st = .forLoop target items body) :
    (st.execute call fuel).Yields fun x => x.isJump = false := by
  rcases hst with ⟨test, body, rfl⟩ | ⟨target, items, body, rfl⟩
  · rw [execute, whileLoop_eq_goRounds]
    exact yields_goRounds yields_exhausted _
  · rw [execute]
    -- the items come first, and have no say in how the loop ends
    refine yields_bind fun v => yields_bind fun vs => ?_
    rw [forLoop_eq_goRounds]
    exact yields_goRounds (yields_pure rfl) _

mutual

theorem yields_execute :
    ∀ st : Statement, st.jumpsInLoops = true →
      (st.execute call fuel).Yields fun x => x.isJump = false
  | .command c, _ => by
    rw [execute]
    exact yields_bind fun _ => yields_pure rfl
  | .branch cases otherwise, hst => by
    rw [jumpsInLoops, Bool.and_eq_true] at hst
    rw [execute]
    exact yields_executeCases (yields_executeBlock otherwise hst.2) cases hst.1
  | .whileLoop test body, _ => yields_execute_of_loop call fuel _ (Or.inl ⟨test, body, rfl⟩)
  | .forLoop target items body, _ =>
    yields_execute_of_loop call fuel _ (Or.inr ⟨target, items, body, rfl⟩)
  | .leave none, _ => by
    rw [execute]
    exact yields_pure rfl
  | .leave (some e), _ => by
    rw [execute]
    exact yields_bind fun v => yields_pure rfl
  | .finish, _ => by
    rw [execute]
    exact yields_fail _
  | .define signature body, _ => by
    rw [execute]
    exact yields_bind fun _ => yields_pure rfl

theorem yields_executeBlock :
    ∀ sts : List Statement, jumpsInLoopsBlock sts = true →
      (executeBlock call fuel sts).Yields fun x => x.isJump = false
  | [], _ => by
    rw [executeBlock]
    exact yields_pure rfl
  | st :: sts, hsts => by
    rw [jumpsInLoopsBlock, Bool.and_eq_true] at hsts
    rw [executeBlock]
    -- a failure that is collected is no jump, and after `done` the rest of the block runs
    refine ((yields_execute st hsts.1).collecting fun _ => rfl).bind fun signal hsignal => ?_
    cases signal with
    | done => exact yields_executeBlock sts hsts.2
    | _ => exact yields_pure hsignal

theorem yields_executeCases {otherwise : Interp Signal}
    (hotherwise : otherwise.Yields fun x => x.isJump = false) :
    ∀ cases : List (Expr × List Statement), jumpsInLoopsCases cases = true →
      (executeCases call fuel otherwise cases).Yields fun x => x.isJump = false
  | [], _ => by
    rw [executeCases]
    exact hotherwise
  | (test, block) :: cases, hcases => by
    rw [jumpsInLoopsCases, Bool.and_eq_true] at hcases
    rw [executeCases]
    refine yields_bind fun v => yields_bind fun b => ?_
    split
    · exact yields_executeBlock block hcases.1
    · exact yields_executeCases hotherwise cases hcases.2

end

end Statement

/-- What is noted of a body whose jumps stand in loops are failures. -/
theorem isStrayJump_of_mem_bodyProblems {call : Caller} {fuel : Nat} {policy : BodyPolicy}
    {body : List Statement} (hbody : Statement.jumpsInLoopsBlock body = true) {s : State}
    {d : Diagnostic} (hd : d ∈ bodyProblems call fuel policy body s) : d.isStrayJump = false := by
  -- what is noted was signalled by a statement of the body, in some state
  obtain ⟨st, hst, s₁, signal, s₂, hrun, hproblem⟩ := exists_signal_of_mem_bodyProblems hd
  have hyields : ((st.execute call fuel).collecting).Yields fun x => x.isJump = false :=
    (st.yields_execute call fuel (Statement.jumpsInLoops_of_mem hst hbody)).collecting fun _ => rfl
  exact Signal.isStrayJump_of_problem? (hyields s₁ signal s₂ hrun) hproblem

/-- The values that a `for` loop goes through. -/
def forItems (call : Caller) (items : Expr) : Interp (List Value) := do
  let v ← items.evaluate call
  Statement.loopItems v

theorem Statement.execute_forLoop (call : Caller) (fuel : Nat) (target : VariableName)
    (items : Expr) (body : List Statement) :
    (Statement.forLoop target items body).execute call fuel = (do
      let vs ← forItems call items
      ModalScript.forLoop target (executeBlock call fuel body) vs) := by
  rw [execute, forItems, bind_assoc]

theorem Signal.ne_of_isJump {signal : Signal} (h : signal.isJump = false) :
    signal ≠ .broken ∧ signal ≠ .continued := by
  cases signal with
  | broken | continued => cases h
  | done | returned v | failed text => exact ⟨nofun, nofun⟩

theorem Diagnostic.ne_of_isStrayJump {d : Diagnostic} (h : d.isStrayJump = false) :
    d ≠ .breakWithoutLoop ∧ d ≠ .continueWithoutLoop := by
  cases d with
  | failure text => exact ⟨nofun, nofun⟩
  | breakWithoutLoop | continueWithoutLoop | returnOutsideFunction => cases h

/-- **Jumps stay in their loops.**  Statements all of whose jumps stand in loops of these
statements end as a block with no jump, and as the body of a function they note no jump without
a loop, under either policy, whatever functions are called.

A loop ends with no jump, whatever its body is.  It ends with a return or a failure if and only
if its body does so in one of its rounds, behind rounds that went on, and then with the same
one and in the same state. -/
theorem jumps_stay_in_loops (call : Caller) (fuel : Nat) (body : List Statement) (s : State) :
    (Statement.jumpsInLoopsBlock body = true →
      (∀ signal t, Statement.executeBlock call fuel body s = (.value signal, t) →
        signal ≠ .broken ∧ signal ≠ .continued) ∧
      ∀ policy ds,
        (runBody call fuel policy body ds s).1.2 =
          (bodyProblems call fuel policy body s).foldl Diagnostics.add ds ∧
        ∀ d ∈ bodyProblems call fuel policy body s,
          d ≠ .breakWithoutLoop ∧ d ≠ .continueWithoutLoop) ∧
    (∀ test signal t,
      let execution := (Statement.whileLoop test body).execute call fuel s
      let holds := do Expr.condition (← test.evaluate call)
      let block := Statement.executeBlock call fuel body
      (execution = (.value signal, t) → signal ≠ .broken ∧ signal ≠ .continued) ∧
      (signal.leavesLoop = true →
        (execution = (.value signal, t) ↔
          ∃ k < fuel, ∃ u u₁, WentOn (List.replicate k (whileRound holds block)) s u ∧
            holds u = (.value true, u₁) ∧ block u₁ = (.value signal, t)))) ∧
    ∀ target items signal t,
      let execution := (Statement.forLoop target items body).execute call fuel s
      let round := forRound target (Statement.executeBlock call fuel body)
      (execution = (.value signal, t) → signal ≠ .broken ∧ signal ≠ .continued) ∧
      (signal.leavesLoop = true →
        (execution = (.value signal, t) ↔
          ∃ vs s₁, forItems call items s = (.value vs, s₁) ∧
            ∃ k v u, vs[k]? = some v ∧ WentOn ((vs.take k).map round) s₁ u ∧
              round v u = (.value signal, t))) := by
  refine ⟨fun hbody => ⟨fun signal t h => ?_, fun policy ds => ⟨?_, fun d hd => ?_⟩⟩,
    fun test signal t => ?_, fun target items signal t => ?_⟩
  · exact Signal.ne_of_isJump (Statement.yields_executeBlock call fuel body hbody s signal t h)
  · exact diagnostics_runBody call fuel policy body ds s
  · exact Diagnostic.ne_of_isStrayJump (isStrayJump_of_mem_bodyProblems hbody hd)
  · have hloop := Statement.yields_execute_of_loop call fuel _ (Or.inl ⟨test, body, rfl⟩)
    refine ⟨fun h => Signal.ne_of_isJump (hloop s signal t h), fun hsignal => ?_⟩
    rw [Statement.execute]
    exact whileLoop_eq_value_iff hsignal
  · have hloop := Statement.yields_execute_of_loop call fuel _ (Or.inr ⟨target, items, body, rfl⟩)
    refine ⟨fun h => Signal.ne_of_isJump (hloop s signal t h), fun hsignal => ?_⟩
    rw [Statement.execute_forLoop, bind_eq_value_iff]
    simp only [forLoop_eq_value_iff hsignal]

/-- A `break` in a branch in a loop, and a failure behind the loop: the failure is noted, and
the jump is not. -/
theorem jumps_stay_in_loops_of_nested_break :
    let body : List Statement :=
      [.whileLoop (.integer 1) [.branch [(.integer 1, [.breakLoop])] []],
        .command (.echo true [.string "x"])]
    Statement.jumpsInLoopsBlock body = true ∧
      bodyProblems (callFunction 1) 1 .resume body default = [.failure "x"] ∧
      ∀ d ∈ bodyProblems (callFunction 1) 1 .resume body default,
        d ≠ .breakWithoutLoop ∧ d ≠ .continueWithoutLoop := by
  intro body
  have hbody : Statement.jumpsInLoopsBlock body = true := rfl
  obtain ⟨-, hnoted⟩ := (jumps_stay_in_loops (callFunction 1) 1 body default).1 hbody
  exact ⟨hbody, rfl, (hnoted .resume {}).2⟩

end ModalScript
