/-
The points of a run.

A run of statements comes to a statement in a state, and from there to the next one, or into
the block of a branch or of a loop (`Comes`).  A list of statements is run as a block, which
ends with the first signal that is not `done`, or as the body of a function, which may resume
behind a problem; and a function runs its body once for each of its lines (`Function.Comes`),
and so passes the states before and behind these statements (`Function.Passes`).
On the way to a point the run has stepped over statements and bodies as a whole, and these may
be asked to be fine.

A lasting relation is followed to the end of a run, and to each of its points, if it is
followed by the commands in the states in which the run comes to them (`Carries`).
-/
import ModalScript.Proofs.Script.Lasting

namespace ModalScript

/-! ### Ways of running statements -/

/-- How a list of statements is run: as a block, or as the body of a function. -/
inductive Mode where
  | block
  | body (policy : BodyPolicy)

/-- Whether the run goes on behind a statement that has ended with a signal. -/
def Mode.goesOn : Mode → Signal → Bool
  | _, .done => true
  | _, .returned _ => false
  | .body .resume, _ => true
  | .block, _ | .body .abort, _ => false

/-- The block that a branch runs: that of the first condition which holds, or else the last. -/
def chosenBlock (call : Caller) (otherwise : List Statement) :
    List (Expr × List Statement) → Interp (List Statement)
  | [] => pure otherwise
  | (test, block) :: cases => do
    if ← Expr.condition (← test.evaluate call) then pure block
    else chosenBlock call otherwise cases

/-! ### Points -/

/-- Statements are run in some way from a state, and this comes to a statement in a state.  What
it has stepped over is fine. -/
inductive Comes (call : Caller) (fuel : Nat) (fine : Mode → List Statement → State → Prop) :
    Mode → List Statement → State → Statement → State → Prop
  | here {mode : Mode} (st : Statement) (sts : List Statement) (s : State) :
      Comes call fuel fine mode (st :: sts) s st s
  | next {mode : Mode} {st st' : Statement} {sts : List Statement} {s t u : State}
      {signal : Signal} : fine mode [st] s →
      (st.execute call fuel).collecting s = (.value signal, t) → mode.goesOn signal = true →
      Comes call fuel fine mode sts t st' u → Comes call fuel fine mode (st :: sts) s st' u
  | branch {mode : Mode} {cases : List (Expr × List Statement)}
      {otherwise block sts : List Statement} {st : Statement} {s t u : State} :
      chosenBlock call otherwise cases s = (.value block, t) →
      Comes call fuel fine .block block t st u →
      Comes call fuel fine mode (.branch cases otherwise :: sts) s st u
  | whileLoop {mode : Mode} {test : Expr} {body sts : List Statement} {st : Statement}
      {s t u : State} :
      EntersWhile (do Expr.condition (← test.evaluate call))
        (Statement.executeBlock call fuel body) (fine .block body) fuel s t →
      Comes call fuel fine .block body t st u →
      Comes call fuel fine mode (.whileLoop test body :: sts) s st u
  | forLoop {mode : Mode} {target : VariableName} {items : Expr} {body sts : List Statement}
      {st : Statement} {v : Value} {vs : List Value} {s s₁ s₂ t u : State} :
      items.evaluate call s = (.value v, s₁) → Statement.loopItems v s₁ = (.value vs, s₂) →
      EntersFor target (Statement.executeBlock call fuel body) (fine .block body) vs s₂ t →
      Comes call fuel fine .block body t st u →
      Comes call fuel fine mode (.forLoop target items body :: sts) s st u

/-- The body of a function is run for so many lines from a line on, and this comes to a
statement in a state.  What it has stepped over is fine. -/
inductive LinesCome (call : Caller) (fuel : Nat) (fine : Mode → List Statement → State → Prop)
    (policy : BodyPolicy) (moves : Bool) (body : List Statement) :
    Nat → Nat → State → Statement → State → Prop
  | inside {count line : Nat} {st : Statement} {s t : State} :
      Comes call fuel fine (.body policy) body (s.follow moves line) st t →
      LinesCome call fuel fine policy moves body (count + 1) line s st t
  | next {count line : Nat} {st : Statement} {s t u : State} {v : Option Value}
      {ds ds' : Diagnostics} : fine (.body policy) body (s.follow moves line) →
      runBody call fuel policy body ds (s.follow moves line) = ((.value v, ds'), t) →
      LinesCome call fuel fine policy moves body count (line + 1) t st u →
      LinesCome call fuel fine policy moves body (count + 1) line s st u

/-- A function that has its arguments is run for the lines of a call, and this comes to a
statement in a state. -/
def Function.Comes (call : Caller) (fuel : Nat) (fine : Mode → List Statement → State → Prop)
    (f : Function) (span : LineSpan) : State → Statement → State → Prop :=
  LinesCome call fuel fine (if f.signature.flags.abort then .abort else .resume) span.moves
    f.body span.range.length span.range.first

/-- The states that a function passes when it has got its arguments: the one in which its body
starts, and those before and behind the statements to which this comes. -/
inductive Function.Passes (call : Caller) (fuel : Nat) (fine : Mode → List Statement → State → Prop)
    (f : Function) (span : LineSpan) (u : State) : State → Prop
  | start : Function.Passes call fuel fine f span u u
  | before {st : Statement} {t : State} :
      f.Comes call fuel fine span u st t → Function.Passes call fuel fine f span u t
  | behind {st : Statement} {t : State} :
      f.Comes call fuel fine span u st t → fine .block [st] t →
      Function.Passes call fuel fine f span u (st.execute call fuel t).2

/-- Nothing is asked of what a run steps over. -/
abbrev Anything : Mode → List Statement → State → Prop :=
  fun _ _ _ => True

/-- The block that a branch runs is one of its blocks. -/
theorem mem_of_chosenBlock {call : Caller} {otherwise block : List Statement}
    {cases : List (Expr × List Statement)} {s t : State}
    (h : chosenBlock call otherwise cases s = (.value block, t)) :
    block = otherwise ∨ ∃ test, (test, block) ∈ cases := by
  induction cases generalizing s with
  | nil =>
    cases h
    exact .inl rfl
  | cons p cases ih =>
    obtain ⟨test, block'⟩ := p
    obtain ⟨v, s₁, -, h₁⟩ := Interp.bind_eq_value_iff.mp h
    obtain ⟨holds, s₂, -, h₂⟩ := Interp.bind_eq_value_iff.mp h₁
    -- a test that is not true leads to the cases behind it
    cases holds with
    | true =>
      cases h₂
      exact .inr ⟨test, List.mem_cons_self⟩
    | false => exact (ih h₂).imp_right fun ⟨test', hmem⟩ => ⟨test', List.mem_cons_of_mem _ hmem⟩

/-- Each command is related to the state in which a run of the statements comes to it. -/
def Holds (call : Caller) (fuel : Nat) (P : Command → State → Prop) (mode : Mode)
    (sts : List Statement) (s : State) : Prop :=
  ∀ c t, Comes call fuel Anything mode sts s (.command c) t → P c t

namespace Comes

variable {call : Caller} {fuel : Nat} {fine : Mode → List Statement → State → Prop}
  {mode : Mode} {st st' : Statement} {sts : List Statement} {s t : State}

/-- What a statement comes to, a list comes to that starts with it. -/
theorem cons (h : Comes call fuel fine mode [st] s st' t) :
    Comes call fuel fine mode (st :: sts) s st' t := by
  cases h with
  | here => exact .here st sts s
  | next _ _ _ hnil => cases hnil
  | branch hblock h => exact .branch hblock h
  | whileLoop hround h => exact .whileLoop hround h
  | forLoop hitems hvs hround h => exact .forLoop hitems hvs hround h

/-- How a single statement is run makes no difference to what it comes to. -/
theorem single (h : Comes call fuel fine mode [st] s st' t) (mode' : Mode) :
    Comes call fuel fine mode' [st] s st' t := by
  cases h with
  | here => exact .here st [] s
  | next _ _ _ hnil => cases hnil
  | branch hblock h => exact .branch hblock h
  | whileLoop hround h => exact .whileLoop hround h
  | forLoop hitems hvs hround h => exact .forLoop hitems hvs hround h

end Comes

namespace Holds

variable {call : Caller} {fuel : Nat} {P : Command → State → Prop} {mode : Mode}
  {st : Statement} {sts : List Statement} {s t : State} {signal : Signal}

/-- What holds of statements holds of the first one. -/
theorem head (h : Holds call fuel P mode (st :: sts) s) (mode' : Mode) :
    Holds call fuel P mode' [st] s :=
  fun c t hc => h c t (hc.single mode).cons

/-- It also holds of the others in the state that the first one leaves. -/
theorem tail (h : Holds call fuel P mode (st :: sts) s)
    (hr : (st.execute call fuel).collecting s = (.value signal, t))
    (hsignal : mode.goesOn signal = true) : Holds call fuel P mode sts t :=
  fun c u hc => h c u (.next trivial hr hsignal hc)

end Holds

/-! ### Relations that are carried along -/

/-- A lasting relation that holds of all that statements do besides running their commands. -/
structure Carries (call : Caller) (E : State → State → Prop) : Prop extends Lasting E where
  evaluate (e : Expr) : (e.evaluate call).Within E
  store (v : VariableName) (x : Value) : (Interp.store v x).Within E
  define (signature : Signature) (body : List Statement) : (defineFunction signature body).Within E
  follow (s : State) (moves : Bool) (line : Nat) : E s (s.follow moves line)

/-- The command leads from the state to a related one. -/
abbrev Command.Obeys (call : Caller) (E : State → State → Prop) (c : Command) (s : State) : Prop :=
  E s (c.execute call s).2

namespace Carries

variable {call : Caller} {E : State → State → Prop} {fuel : Nat}

theorem test (hE : Carries call E) (e : Expr) :
    (do Expr.condition (← e.evaluate call)).Within E :=
  hE.bind (hE.evaluate e) fun _ => hE.ofExcept _

/-- Choosing a block evaluates tests, up to the first one that is true. -/
theorem chosenBlock (hE : Carries call E) (otherwise : List Statement)
    (cases : List (Expr × List Statement)) :
    (ModalScript.chosenBlock call otherwise cases).Within E := by
  induction cases with
  | nil => exact hE.pure otherwise
  | cons p cases ih =>
    obtain ⟨test, block⟩ := p
    refine hE.bind (hE.evaluate test) fun v => hE.bind (hE.ofExcept _) fun holds => ?_
    split
    · exact hE.pure block
    · exact ih

mutual

/-- A statement is within the relation, if the commands are to which it comes. -/
theorem execute (hE : Carries call E) :
    ∀ (st : Statement) (s : State), Holds call fuel (·.Obeys call E) .block [st] s →
      E s (st.execute call fuel s).2
  | .command c, s, hst => by
    rw [Statement.execute]
    exact hE.bind_at (hst c s (.here _ _ s)) fun _ t _ => hE.refl t
  | .branch cases otherwise, s, hst => by
    rw [Statement.execute]
    exact executeCases hE (executeBlock hE otherwise) cases s
      fun block t hblock c u hc => hst c u (.branch hblock hc)
  | .whileLoop test body, s, hst => by
    rw [Statement.execute]
    exact hE.whileLoop_at (hE.test test) fun t hround =>
      executeBlock hE body t fun c u hc => hst c u (.whileLoop hround hc)
  | .forLoop target items body, s, hst => by
    rw [Statement.execute]
    exact hE.bind_at (hE.evaluate items s) fun v s₁ hv =>
      hE.bind_at (hE.readExcept _ s₁) fun vs s₂ hvs =>
        hE.forLoop_at (hE.store target) fun t hround =>
          executeBlock hE body t fun c u hc => hst c u (.forLoop hv hvs hround hc)
  | .breakLoop, s, _ | .continueLoop, s, _ | .leave none, s, _ => by
    rw [Statement.execute]
    exact hE.refl s
  | .leave (some e), s, _ => by
    rw [Statement.execute]
    exact hE.bind_at (hE.evaluate e s) fun _ t _ => hE.refl t
  | .finish, s, _ => by
    rw [Statement.execute]
    exact hE.refl s
  | .define signature body, s, _ => by
    rw [Statement.execute]
    exact hE.bind_at (hE.define signature body s) fun _ t _ => hE.refl t

/-- So is a block. -/
theorem executeBlock (hE : Carries call E) :
    ∀ (sts : List Statement) (s : State), Holds call fuel (·.Obeys call E) .block sts s →
      E s (Statement.executeBlock call fuel sts s).2
  | [], s, _ => by
    rw [Statement.executeBlock]
    exact hE.refl s
  | st :: sts, s, hsts => by
    have hst : E s ((st.execute call fuel).collecting s).2 := by
      rw [Interp.snd_collecting]
      exact execute hE st s (hsts.head .block)
    rw [Statement.executeBlock]
    refine hE.bind_at hst fun signal t hr => ?_
    -- another signal ends the block
    cases signal with
    | done => exact executeBlock hE sts t (hsts.tail hr rfl)
    | _ => exact hE.refl t

/-- A branch is so, if its block is when it has been chosen. -/
theorem executeCases (hE : Carries call E) {otherwise : List Statement}
    (hotherwise : ∀ s, Holds call fuel (·.Obeys call E) .block otherwise s →
      E s (Statement.executeBlock call fuel otherwise s).2) :
    ∀ (cases : List (Expr × List Statement)) (s : State),
      (∀ block t, ModalScript.chosenBlock call otherwise cases s = (.value block, t) →
        Holds call fuel (·.Obeys call E) .block block t) →
      E s (Statement.executeCases call fuel (Statement.executeBlock call fuel otherwise)
        cases s).2
  | [], s, hcases => by
    rw [Statement.executeCases]
    exact hotherwise s (hcases otherwise s rfl)
  | (test, block) :: cases, s, hcases => by
    rw [Statement.executeCases]
    refine hE.bind_at (hE.evaluate test s) fun v s₁ hv =>
      hE.bind_at (hE.ofExcept _ s₁) fun holds s₂ hholds => ?_
    -- the block is chosen by the first test, or by those behind it
    have hchosen : ModalScript.chosenBlock call otherwise ((test, block) :: cases) s =
        (if holds then pure block else ModalScript.chosenBlock call otherwise cases :
          Interp (List Statement)) s₂ :=
      (Interp.bind_of_value hv _).trans (Interp.bind_of_value hholds _)
    cases holds with
    | true => exact executeBlock hE block s₂ (hcases block s₂ hchosen)
    | false =>
      exact executeCases hE hotherwise cases s₂ fun block' t hblock' =>
        hcases block' t (hchosen.trans hblock')

end

/-! ### Bodies of functions -/

/-- A body is so under both policies. -/
theorem runBody (hE : Carries call E) {policy : BodyPolicy} {body : List Statement} {s : State}
    (hbody : Holds call fuel (·.Obeys call E) (.body policy) body s) (ds : Diagnostics) :
    E s (ModalScript.runBody call fuel policy body ds s).2 := by
  induction body generalizing ds s with
  | nil => exact hE.refl s
  | cons st sts ih =>
    have hs := hE.execute st s (hbody.head .block)
    rw [← Interp.snd_collecting] at hs
    unfold ModalScript.runBody
    rcases hr : (st.execute call fuel).collecting s with ⟨r, s₁⟩
    rw [hr] at hs
    cases r with
    | failed e => exact hs
    | outOfFuel => exact hs
    | value signal =>
      cases signal with
      | done => exact hE.trans hs (ih (hbody.tail hr rfl) ds)
      | returned v => exact hs
      | _ =>
        -- a problem, which is noted without a change of the state
        cases policy with
        | abort => exact hs
        | resume => exact hE.trans hs (ih (hbody.tail hr rfl) _)

/-- So are all runs of a body for the lines of a call. -/
theorem runLines (hE : Carries call E) {policy : BodyPolicy} {moves : Bool}
    {body : List Statement} {count line : Nat} {s : State}
    (hlines : ∀ c t, LinesCome call fuel Anything policy moves body count line s (.command c) t →
      c.Obeys call E t) (returned : Option Value) (ds : Diagnostics) :
    E s (ModalScript.runLines call fuel policy moves body count line returned ds s).2 := by
  induction count generalizing line returned ds s with
  | zero => exact hE.refl s
  | succ count ih =>
    have hs := hE.trans (hE.follow s moves line)
      (hE.runBody (fun c t hc => hlines c t (.inside hc)) ds)
    unfold ModalScript.runLines
    -- the next run starts in the state that this one has left
    rcases hr : ModalScript.runBody call fuel policy body ds (s.follow moves line) with
      ⟨⟨r, ds'⟩, s₁⟩
    rw [hr] at hs
    cases r with
    | value v => exact hE.trans hs (ih (fun c t hc => hlines c t (.next trivial hr hc)) _ _)
    | failed e => exact hs
    | outOfFuel => exact hs

/-! ### From the start of a run to a point -/

variable {fine : Mode → List Statement → State → Prop}
  (hfine : ∀ mode sts s, fine mode sts s → Holds call fuel (·.Obeys call E) mode sts s)

include hfine

/-- On its way to a statement a run is within the relation, if what it steps over is fine. -/
theorem comes (hE : Carries call E) {mode : Mode} {sts : List Statement} {s t : State}
    {st : Statement} (h : Comes call fuel fine mode sts s st t) : E s t := by
  induction h with
  | here _ _ s => exact hE.refl s
  | @next mode st st' sts s t u signal hst hr _ _ ih =>
    have hs := hE.execute st s ((hfine mode [st] s hst).head .block)
    rw [← Interp.snd_collecting, hr] at hs
    exact hE.trans hs ih
  | @branch mode cases otherwise block sts st s t u hblock _ ih =>
    have hs := hE.chosenBlock otherwise cases s
    rw [hblock] at hs
    exact hE.trans hs ih
  | @whileLoop mode test body sts st s t u hround _ ih =>
    exact hE.trans (hE.entersWhile (hE.test test)
      (fun t ht => hE.executeBlock body t (hfine _ _ t ht)) hround) ih
  | @forLoop mode target items body sts st v vs s s₁ s₂ t u hv hvs hround _ ih =>
    have hs := hE.evaluate items s
    rw [hv] at hs
    -- the values of a list are read once, before the first round
    have hs₁ : E s₁ s₂ := by
      have hitems := hE.readExcept (fun s => v.toList.map s.session.heap.items) s₁
      have hvs' : Interp.readExcept (fun s => v.toList.map s.session.heap.items) s₁ =
        (.value vs, s₂) := hvs
      rwa [hvs'] at hitems
    exact hE.trans (hE.trans hs hs₁) (hE.trans (hE.entersFor (hE.store target)
      (fun t ht => hE.executeBlock body t (hfine _ _ t ht)) hround) ih)

/-- The same goes for a function that is run for lines. -/
theorem linesCome (hE : Carries call E) {policy : BodyPolicy} {moves : Bool}
    {body : List Statement} {count line : Nat} {s t : State} {st : Statement}
    (h : LinesCome call fuel fine policy moves body count line s st t) : E s t := by
  induction h with
  | inside h => exact hE.trans (hE.follow _ _ _) (hE.comes hfine h)
  | @next count line st s t u v ds ds' hbody hr _ ih =>
    have hs := hE.runBody (hfine _ _ _ hbody) ds
    rw [hr] at hs
    exact hE.trans (hE.trans (hE.follow s moves line) hs) ih

/-- A state that a function passes is related to the one in which its body starts. -/
theorem passes (hE : Carries call E) {f : Function} {span : LineSpan} {u t : State}
    (h : f.Passes call fuel fine span u t) : E u t := by
  cases h with
  | start => exact hE.refl u
  | before hcomes => exact hE.linesCome hfine hcomes
  | @behind st t hcomes hst =>
    exact hE.trans (hE.linesCome hfine hcomes) (hE.execute st t (hfine .block [st] t hst))

end Carries

end ModalScript
