/-
Scripts without `while` loops come to an end.

All that such a script can do for long is to call, and the limit on the depth of calls ends
that, provided that no call evades it.  The measure of a call is the room that is left above
the stack of frames; within a call it is the syntax, in which a `for` loop is as long as the
list it has been given, and a body is run as often as there are lines.  Functions may be
defined and replaced on the way, but only by such as have no `while` loops either.

A computation `Settles` together with another one if they do the same and end.  The other
one is the same part of the interpreter with other fuel, so that one induction shows both
that enough fuel lets a run end and that more of it makes no difference.

Main result: `runScript_settles`.
-/
import ModalScript.Proofs.Script.Detour
import ModalScript.Proofs.Script.Preparing
import ModalScript.Proofs.Script.Quiet
import ModalScript.Proofs.Script.Registry

namespace ModalScript

open Interp

/-! ### No loops -/

namespace Statement

mutual

/-- There is no `while` loop in the statement, nor in the functions that it defines. -/
def NoWhile : Statement → Prop
  | .branch cases otherwise => NoWhileCases cases ∧ NoWhileBlock otherwise
  | .whileLoop _ _ => False
  | .forLoop _ _ body => NoWhileBlock body
  | .define _ body => NoWhileBlock body
  | _ => True

/-- There is no `while` loop in the statements. -/
def NoWhileBlock : List Statement → Prop
  | [] => True
  | st :: sts => NoWhile st ∧ NoWhileBlock sts

/-- There is no `while` loop in the blocks. -/
def NoWhileCases : List (Expr × List Statement) → Prop
  | [] => True
  | (_, block) :: cases => NoWhileBlock block ∧ NoWhileCases cases

end

end Statement

/-! ### Computations that settle -/

/-- There is no `while` loop in the registered functions, and `h` functions are running. -/
structure State.Ready (h : Nat) (s : State) : Prop where
  functions : s.session.functions.Every fun f => Statement.NoWhileBlock f.function.body
  depth : s.session.vars.depth = h

namespace Interp

variable {α β : Type} {h : Nat} {m m' : Interp α} {s : State}

/-- Both computations do the same, are not cut off, and leave the state ready. -/
def SettlesAt (h : Nat) (m m' : Interp α) (s : State) : Prop :=
  m' s = m s ∧ (m s).1 ≠ .outOfFuel ∧ (m s).2.Ready h

/-- They do so in every state that is ready. -/
def Settles (h : Nat) (m m' : Interp α) : Prop :=
  ∀ s, s.Ready h → SettlesAt h m m' s

/-- What is quiet settles with itself. -/
theorem Quiet.settles (hm : m.Quiet) : m.Settles h m := by
  intro s hs
  obtain ⟨hend, hfunctions, hdepth⟩ := hm s
  refine ⟨rfl, hend, ?_, hdepth.trans hs.depth⟩
  rw [hfunctions]
  exact hs.functions

/-- Two computations that settle do so one after the other. -/
theorem Settles.bind {f f' : α → Interp β} (hm : m.Settles h m')
    (hf : ∀ a, (f a).Settles h (f' a)) : (m >>= f).Settles h (m' >>= f') := by
  intro s hs
  obtain ⟨heq, hend, hready⟩ := hm s hs
  show SettlesAt h (m.andThen f) (m'.andThen f') s
  simp only [SettlesAt, andThen, heq]
  rcases hr : m s with ⟨r, s'⟩
  rw [hr] at hend hready
  -- the second computation starts where both first ones have ended
  cases r with
  | value a => exact hf a s' hready
  | failed e => exact ⟨rfl, Outcome.failed_ne_outOfFuel _, hready⟩
  | outOfFuel => exact absurd rfl hend

/-- What settles does so whether its errors are collected or not. -/
theorem Settles.collecting {m m' : Interp Signal} (hm : m.Settles h m') :
    m.collecting.Settles h m'.collecting := by
  intro s hs
  obtain ⟨heq, hend, hready⟩ := hm s hs
  have hsame : m'.collecting s = m.collecting s := by simp only [Interp.collecting, heq]
  refine ⟨hsame, ?_⟩
  unfold Interp.collecting
  rcases hr : m s with ⟨r, s'⟩
  rw [hr] at hend hready
  cases r with
  | value signal => exact ⟨Outcome.value_ne_outOfFuel _, hready⟩
  | failed e =>
    simp only
    split
    · exact ⟨Outcome.value_ne_outOfFuel _, hready⟩
    · exact ⟨Outcome.failed_ne_outOfFuel _, hready⟩
  | outOfFuel => exact absurd rfl hend

end Interp

/-- With `h` functions running, every call settles with the same call of the other caller. -/
def Caller.Settles (h : Nat) (call call' : Caller) : Prop :=
  ∀ name args site, (call name args site).Settles h (call' name args site)

section Interpreter

variable {h : Nat} {call call' : Caller}

/-! ### Expressions -/

/-- Evaluation settles if calls do, as everything else in it is quiet. -/
theorem Interp.congruence_settles (h : Nat) : Congruence fun m m' => m.Settles h m' where
  value a := (quiet_pure a).settles
  failure e := (quiet_fail (.eval e)).settles
  reading f := (quiet_readExcept f).settles
  growing _ := (quiet_onHeap _).settles
  sequence := Settles.bind

theorem Expr.settles_evaluate (hcall : call.Settles h call') (e : Expr) :
    (e.evaluate call).Settles h (e.evaluate call') :=
  (congruence_settles h).evaluate hcall e

theorem Expr.settles_evaluateAll (hcall : call.Settles h call') (es : List Expr) :
    (evaluateAll call es).Settles h (evaluateAll call' es) :=
  (congruence_settles h).evaluateAll hcall es

theorem Expr.settles_condition (v : Value) : (condition v).Settles h (condition v) :=
  (congruence_settles h).condition v

/-! ### Commands -/

namespace Command

theorem settles_assignTo (hcall : call.Settles h call') (op : LetOperator) (new : Value)
    (target : LetTarget) :
    (assignTo call op new target).Settles h (assignTo call' op new target) := by
  cases target with
  | «variable» v =>
    have hstore := (quiet_combine op new (quiet_readExcept fun s =>
      s.session.vars.get v s.editor.id)).bind fun x => quiet_store v x
    exact hstore.settles
  -- only the operands of an index may call functions
  | index base place =>
    exact (Expr.settles_evaluate hcall base).bind fun container =>
      (Expr.settles_evaluate hcall place).bind fun key =>
        (quiet_assignElement _ _ _ _).settles
  | setting access name =>
    have hwrite := (quiet_combine op new (quiet_readExcept fun s =>
      Expr.settingValue s access name)).bind fun x =>
        (quiet_read fun s => access.scope s.editor.id).bind fun scope =>
          (quiet_read fun s => s.session.heap).bind fun heap =>
            quiet_configure (Settings.assign heap scope name x)
    exact hwrite.settles

theorem settles_echoValues (hcall : call.Settles h call') (isError : Bool) (es : List Expr) :
    (echoValues call isError es).Settles h (echoValues call' isError es) := by
  refine ((congruence_settles h).echoParts hcall es).bind fun parts => ?_
  simp only
  split
  · exact (quiet_fail _).settles
  · have hecho (text : String) : (changeSession (·.echo text)).Quiet :=
      quiet_changeSession (fun _ => rfl) fun _ => rfl
    exact (hecho _).settles

/-- Dropping a function leaves no `while` loop behind that was not there. -/
theorem settles_deleteFunction (line : CommandLine) :
    (deleteFunction line).Settles h (deleteFunction line) := by
  intro s hs
  refine ⟨rfl, ?_⟩
  have hfunctions := hs.functions.remove (String.ofList line.trimmed)
  rcases hremove : s.session.functions.remove (String.ofList line.trimmed) with ⟨found, functions⟩
  rw [hremove] at hfunctions
  simp only [deleteFunction, hremove]
  split
  · exact ⟨Outcome.value_ne_outOfFuel _, hfunctions, hs.depth⟩
  · split
    · exact ⟨Outcome.value_ne_outOfFuel _, hs⟩
    · exact ⟨Outcome.failed_ne_outOfFuel _, hs⟩

theorem settles_process (hcall : call.Settles h call') (c : Command) :
    (c.process call).Settles h (c.process call') := by
  cases c with
  | assign target op value =>
    exact (Expr.settles_evaluate hcall value).bind fun new =>
      settles_assignTo hcall op new target
  | echo isError values => exact settles_echoValues hcall isError values
  | call range name args =>
    exact (Expr.settles_evaluateAll hcall args).bind fun vs =>
      (hcall _ _ _).bind fun _ => (quiet_pure _).settles
  | text command line =>
    cases command with
    | delete => exact (quiet_deleteLines line).settles
    | deleteFunction => exact settles_deleteFunction line
    | print => exact (quiet_printLines line).settles
    | set kind => exact (quiet_changeSettings kind line).settles
    | unlet => exact (quiet_removeVariables line).settles

theorem settles_execute (hcall : call.Settles h call') (c : Command) :
    (c.execute call).Settles h (c.execute call') := by
  intro s hs
  simp only [SettlesAt, execute]
  split
  · exact settles_process hcall c s hs
  · exact ⟨rfl, Outcome.failed_ne_outOfFuel _, hs⟩

end Command

/-! ### Statements -/

theorem Signal.settles_thenLoop (signal : Signal) {next next' : Interp Signal}
    (hnext : next.Settles h next') : (signal.thenLoop next).Settles h (signal.thenLoop next') := by
  unfold Signal.thenLoop
  split
  · exact hnext
  · exact (quiet_pure _).settles

/-- A loop over a list ends with the list, however often its body changes the list it was
taken from. -/
theorem settles_forLoop (target : VariableName) {body body' : Interp Signal}
    (hbody : body.Settles h body') (vs : List Value) :
    (forLoop target body vs).Settles h (forLoop target body' vs) := by
  induction vs with
  | nil => exact (quiet_pure _).settles
  | cons v vs ih =>
    rw [forLoop_cons, forLoop_cons]
    exact (quiet_store target v).settles.bind fun _ =>
      hbody.bind fun signal => signal.settles_thenLoop ih

/-- A function that is defined has a body from the text of a statement. -/
theorem settles_defineFunction (signature : Signature) {body : List Statement}
    (hbody : Statement.NoWhileBlock body) :
    (defineFunction signature body).Settles h (defineFunction signature body) := by
  intro s hs
  refine ⟨rfl, ?_⟩
  unfold defineFunction
  cases hcaptured : capturedBy s.session signature with
  | error e => exact ⟨Outcome.failed_ne_outOfFuel _, hs⟩
  | ok captured =>
    cases hdefine : s.session.functions.define ⟨⟨signature, body⟩, captured⟩ with
    | error e =>
      simp only [bind, Except.bind, hdefine]
      exact ⟨Outcome.failed_ne_outOfFuel _, hs⟩
    | ok functions =>
      simp only [bind, Except.bind, hdefine]
      exact ⟨Outcome.value_ne_outOfFuel _, hs.functions.define hbody hdefine, hs.depth⟩

namespace Statement

mutual

/-- A statement without `while` loops settles, whatever the fuel is. -/
theorem settles_execute (hcall : call.Settles h call') (fuel fuel' : Nat) :
    ∀ st : Statement, st.NoWhile → (st.execute call fuel).Settles h (st.execute call' fuel')
  | .command c, _ => by
    rw [execute, execute]
    exact (Command.settles_execute hcall c).bind fun _ => (quiet_pure _).settles
  | .branch cases otherwise, hst => by
    rw [NoWhile] at hst
    rw [execute, execute]
    exact settles_executeCases hcall fuel fuel'
      (settles_executeBlock hcall fuel fuel' otherwise hst.2) cases hst.1
  | .whileLoop _ _, hst => by
    rw [NoWhile] at hst
    exact hst.elim
  | .forLoop target items body, hst => by
    rw [NoWhile] at hst
    rw [execute, execute]
    exact (Expr.settles_evaluate hcall items).bind fun v =>
      (quiet_readExcept _).settles.bind fun vs =>
        settles_forLoop target (settles_executeBlock hcall fuel fuel' body hst) vs
  | .breakLoop, _ | .continueLoop, _ | .leave none, _ => by
    rw [execute, execute]
    exact (quiet_pure _).settles
  | .leave (some e), _ => by
    rw [execute, execute]
    exact (Expr.settles_evaluate hcall e).bind fun v => (quiet_pure _).settles
  | .finish, _ => by
    rw [execute, execute]
    exact (quiet_fail _).settles
  | .define signature body, hst => by
    rw [NoWhile] at hst
    rw [execute, execute]
    exact (settles_defineFunction signature hst).bind fun _ => (quiet_pure _).settles

theorem settles_executeBlock (hcall : call.Settles h call') (fuel fuel' : Nat) :
    ∀ sts : List Statement, NoWhileBlock sts →
      (executeBlock call fuel sts).Settles h (executeBlock call' fuel' sts)
  | [], _ => by
    rw [executeBlock, executeBlock]
    exact (quiet_pure _).settles
  | st :: sts, hsts => by
    rw [NoWhileBlock] at hsts
    rw [executeBlock, executeBlock]
    refine (settles_execute hcall fuel fuel' st hsts.1).collecting.bind fun signal => ?_
    cases signal with
    | done => exact settles_executeBlock hcall fuel fuel' sts hsts.2
    | _ => exact (quiet_pure _).settles

theorem settles_executeCases (hcall : call.Settles h call') (fuel fuel' : Nat)
    {otherwise otherwise' : Interp Signal}
    (hotherwise : otherwise.Settles h otherwise') :
    ∀ cases : List (Expr × List Statement), NoWhileCases cases →
      (executeCases call fuel otherwise cases).Settles h
        (executeCases call' fuel' otherwise' cases)
  | [], _ => by
    rw [executeCases, executeCases]
    exact hotherwise
  | (test, block) :: cases, hcases => by
    rw [NoWhileCases] at hcases
    rw [executeCases, executeCases]
    refine (Expr.settles_evaluate hcall test).bind fun v =>
      (Expr.settles_condition v).bind fun b => ?_
    split
    · exact settles_executeBlock hcall fuel fuel' block hcases.1
    · exact settles_executeCases hcall fuel fuel' hotherwise cases hcases.2

end

end Statement

/-! ### Bodies of functions -/

/-- So does a body, under both policies. -/
theorem settles_runBody (hcall : call.Settles h call') (fuel fuel' : Nat) (policy : BodyPolicy)
    {body : List Statement} (hbody : Statement.NoWhileBlock body) (ds : Diagnostics) {s : State}
    (hs : s.Ready h) :
    runBody call' fuel' policy body ds s = runBody call fuel policy body ds s ∧
      (runBody call fuel policy body ds s).1.1 ≠ .outOfFuel ∧
      (runBody call fuel policy body ds s).2.Ready h := by
  induction body generalizing ds s with
  | nil => exact ⟨rfl, Outcome.value_ne_outOfFuel _, hs⟩
  | cons st sts ih =>
    rw [Statement.NoWhileBlock] at hbody
    obtain ⟨heq, hend, hready⟩ :=
      (Statement.settles_execute hcall fuel fuel' st hbody.1).collecting s hs
    simp only [runBody, heq]
    rcases hr : (st.execute call fuel).collecting s with ⟨r, s₁⟩
    rw [hr] at hend hready
    cases r with
    | failed e => exact ⟨rfl, Outcome.failed_ne_outOfFuel _, hready⟩
    | outOfFuel => exact absurd rfl hend
    | value signal =>
      cases signal with
      | done => exact ih hbody.2 ds hready
      | returned v => exact ⟨rfl, Outcome.value_ne_outOfFuel _, hready⟩
      | _ =>
        -- a problem, which ends the body or is noted
        cases policy with
        | abort => exact ⟨rfl, Outcome.value_ne_outOfFuel _, hready⟩
        | resume => exact ih hbody.2 _ hready

/-- Where the cursor is makes no difference. -/
theorem State.Ready.follow {s : State} (hs : s.Ready h) (moves : Bool) (line : Nat) :
    (s.follow moves line).Ready h := by
  unfold State.follow
  split
  · exact ⟨hs.functions, hs.depth⟩
  · exact hs

/-- A body is run as often as there are lines, which is settled before the first run. -/
theorem settles_runLines (hcall : call.Settles h call') (fuel fuel' : Nat) (policy : BodyPolicy)
    (moves : Bool) {body : List Statement} (hbody : Statement.NoWhileBlock body)
    (count line : Nat) (returned : Option Value) (ds : Diagnostics) :
    (runLines call fuel policy moves body count line returned ds).Settles h
      (runLines call' fuel' policy moves body count line returned ds) := by
  induction count generalizing line returned ds with
  | zero => exact fun s hs => ⟨rfl, Outcome.value_ne_outOfFuel _, hs⟩
  | succ count ih =>
    intro s hs
    obtain ⟨heq, hend, hready⟩ :=
      settles_runBody hcall fuel fuel' policy hbody ds (hs.follow moves line)
    simp only [SettlesAt, runLines, heq]
    rcases hr : runBody call fuel policy body ds (s.follow moves line) with ⟨⟨r, ds'⟩, s'⟩
    rw [hr] at hend hready
    cases r with
    | value v => exact ih _ _ _ s' hready
    | failed e => exact ⟨rfl, Outcome.failed_ne_outOfFuel _, hready⟩
    | outOfFuel => exact absurd rfl hend

/-! ### Calls -/

theorem Interp.preparing_settles (h : Nat) : Preparing fun m m' => m.Settles h m' where
  toCongruence := congruence_settles h
  binding _ _ := (quiet_bindArgument _ _).settles
  storing _ _ := (quiet_store _ _).settles

/-- An invocation settles if its body is without `while` loops. -/
theorem settles_runInvocation (hcall : call.Settles h call') (fuel fuel' : Nat) {f : Function}
    (hf : Statement.NoWhileBlock f.body) (args : List Value) (dict : Option DictRef)
    (span : LineSpan) :
    (runInvocation call fuel f args dict span).Settles h
      (runInvocation call' fuel' f args dict span) := by
  rw [runInvocation_eq, runInvocation_eq]
  exact ((preparing_settles h).prepare hcall f args dict span.range).bind fun _ =>
    (settles_runLines hcall fuel fuel' _ _ hf _ _ _ _).bind fun r =>
      ((quiet_reportLast r.2).bind fun _ => quiet_pure _).settles

/-- What settles above a new frame settles below it. -/
theorem settles_inFrame (function : String) (captured : Option LocalsRef) {α : Type}
    {m m' : Interp α} (hm : m.Settles (h + 1) m') :
    (inFrame function captured m).Settles h (inFrame function captured m') := by
  intro s hs
  let s₁ : State := { s with
    session := { s.session with vars := s.session.vars.push function captured } }
  have hpush : s₁.Ready (h + 1) := ⟨hs.functions, congrArg Nat.succ hs.depth⟩
  -- inside there is one function more
  obtain ⟨heq, hend, hready⟩ := hm s₁ hpush
  refine ⟨?_, hend, hready.functions, ?_⟩
  · simp only [inFrame]
    rw [heq]
  · have hdepth : (m s₁).2.session.vars.frames.length = h + 1 := hready.depth
    show (m s₁).2.session.vars.frames.tail.length = h
    rw [List.length_tail, hdepth, Nat.add_sub_cancel]

/-- A call that does not evade the limit settles, if those inside it do.  There are some only
if there is room above the stack of frames. -/
theorem settles_callStep {D : Nat} {r : Request} {s : State} (hs : s.Ready h)
    (hr : Evades D r s = false) (hcall : h < D → call.Settles (h + 1) call')
    (fuel fuel' : Nat) :
    SettlesAt h (r.make (callStep call fuel)) (r.make (callStep call' fuel')) s := by
  obtain ⟨hhop, hlimit⟩ := evades_eq_false_iff.mp hr
  rcases Request.lands_iff.mpr hhop with ⟨f, hname⟩ | ⟨b, hb, hname⟩ | ⟨e, hfail⟩
  · -- a user-defined function, which has a frame only if there is room for it
    have henter (c : Caller) (n : Nat) :
        r.make (callStep c n) s = invoke c n f r.args r.site s := by
      rw [Request.make_callStep, hname]
      rfl
    rw [SettlesAt, henter, henter]
    cases hcheck : checkCall s f.function.signature r.args r.site with
    | error e =>
      rw [invoke_of_refused hcheck, invoke_of_refused hcheck]
      exact ⟨rfl, Outcome.failed_ne_outOfFuel _, hs⟩
    | ok =>
      have hroom : h < D := by
        have hdepth := depth_lt_of_checkCall hcheck
        rwa [hs.depth, hlimit] at hdepth
      have hbody := hs.functions.of_get? (Callee.get?_of_ofName hname)
      rw [invoke_of_accepted hcheck, invoke_of_accepted hcheck]
      exact settles_inFrame _ _ (settles_runInvocation (hcall hroom) fuel fuel' hbody _ _ _) s hs
  · -- a built-in function, which makes no call
    have hrun (c : Caller) (n : Nat) :
        r.make (callStep c n) s = b.run call r.args r.site s := by
      rw [Request.make_callStep, hname]
      exact congrFun (Builtin.run_eq_of_ne hb c call r.args r.site) s
    rw [SettlesAt, hrun, hrun]
    exact (Builtin.quiet_run hb call r.args r.site).settles s hs
  · rw [SettlesAt, hfail, hfail]
    exact ⟨rfl, Outcome.failed_ne_outOfFuel _, hs⟩

end Interpreter

/-! ### Runs -/

/-- A caller that refuses all calls. -/
def refusal (_ : Nat) : Caller :=
  fun _ _ _ => .fail .finish

section Runs

variable {D h n n' : Nat}

/-- One level of calls. -/
theorem settles_diverted_succ
    (hcall : h < D →
      (diverted (Evades D) refusal n).Settles (h + 1) (diverted (Evades D) refusal n')) :
    (diverted (Evades D) refusal (n + 1)).Settles h (diverted (Evades D) refusal (n' + 1)) := by
  intro name args site s hs
  let r : Request := ⟨name, args, site⟩
  show SettlesAt h (r.make (diverted (Evades D) refusal (n + 1)))
    (r.make (diverted (Evades D) refusal (n' + 1))) s
  cases hr : Evades D r s with
  | true =>
    rw [SettlesAt, diverted_of_hit hr, diverted_of_hit hr]
    exact ⟨rfl, Outcome.failed_ne_outOfFuel _, hs⟩
  | false =>
    rw [SettlesAt, diverted_of_miss hr, diverted_of_miss hr]
    exact settles_callStep hs hr hcall n n'

/-- Calls settle as soon as the fuel exceeds the room above the stack of frames, if those that
evade the limit are refused. -/
theorem settles_diverted {room : Nat} (hroom : h + room = D) (hn : room < n) (hn' : room < n') :
    (diverted (Evades D) refusal n).Settles h (diverted (Evades D) refusal n') := by
  -- a call inside a call has less room, and less fuel by as much
  induction room generalizing h n n' with
  | zero =>
    obtain ⟨n, rfl⟩ := Nat.exists_eq_add_one.mpr hn
    obtain ⟨n', rfl⟩ := Nat.exists_eq_add_one.mpr hn'
    exact settles_diverted_succ fun hlt => by omega
  | succ room ih =>
    obtain ⟨n, rfl⟩ := Nat.exists_eq_add_one.mpr (Nat.lt_of_le_of_lt (Nat.zero_le _) hn)
    obtain ⟨n', rfl⟩ := Nat.exists_eq_add_one.mpr (Nat.lt_of_le_of_lt (Nat.zero_le _) hn')
    exact settles_diverted_succ fun _ => ih (by omega) (by omega) (by omega)

theorem State.Ready.report {s : State} (hs : s.Ready h) (problem? : Option Diagnostic) :
    State.Ready h { s with session := s.session.report problem? } := by
  cases problem? with
  | some d => exact ⟨hs.functions, hs.depth⟩
  | none => exact hs

/-- A script settles if the calls in it do. -/
theorem settles_runScriptWith {call call' : Caller} (hcall : call.Settles h call')
    (fuel fuel' : Nat) {script : List Statement} (hscript : Statement.NoWhileBlock script) :
    (runScriptWith call fuel script).Settles h (runScriptWith call' fuel' script) := by
  induction script with
  | nil => exact fun s hs => ⟨rfl, Outcome.value_ne_outOfFuel _, hs⟩
  | cons st sts ih =>
    rw [Statement.NoWhileBlock] at hscript
    intro s hs
    obtain ⟨heq, hend, hready⟩ :=
      (Statement.settles_execute hcall fuel fuel' st hscript.1).collecting s hs
    simp only [SettlesAt, runScriptWith, heq]
    rcases hr : (st.execute call fuel).collecting s with ⟨r, s₁⟩
    rw [hr] at hend hready
    -- the next statement starts in the state with the report
    cases r with
    | value signal =>
      simp only
      split
      · exact ih hscript.2 _ (hready.report _)
      · exact ⟨rfl, Outcome.value_ne_outOfFuel _, hready.report _⟩
    | failed e =>
      cases e with
      | finish => exact ⟨rfl, Outcome.value_ne_outOfFuel _, hready⟩
      | _ => exact ⟨rfl, Outcome.failed_ne_outOfFuel _, hready.functions, hready.depth⟩
    | outOfFuel => exact absurd rfl hend

/-- A user-defined function that is called with the right number of arguments, and on a
dictionary if it asks for one, is refused where as many functions are running as may. -/
theorem callStep_of_depth {t : State} {f : DefinedFunction} {name : String} {args : List Value}
    {site : CallSite} (hname : Callee.ofName t name = .user f)
    (harity : f.function.signature.checkArity args.length = .ok ())
    (hdict : f.function.signature.flags.dict → site.dict ≠ none)
    (hdepth : t.session.maxCallDepth ≤ t.session.vars.depth) (call : Caller) (fuel : Nat) :
    callStep call fuel name args site t = (.failed (.eval .callDepthExceeded), t) := by
  have hcheck : checkCall t f.function.signature args site = .error .callDepthExceeded := by
    have hgiven : ¬ (f.function.signature.flags.dict ∧ site.dict = none) :=
      fun h => hdict h.1 h.2
    simp only [checkCall, harity, if_neg hgiven, if_pos hdepth]
  show (Callee.ofName t name).enter call fuel name args site t = _
  rw [hname]
  exact invoke_of_refused hcheck call fuel

/-- **Scripts without `while` loops end within the depth limit.**  Let no statement of the
script or of a registered function be a `while` loop, and let no more functions be running
than may.  Suppose that whatever the fuel is, the run makes no call that is handed over by a
reference or by `call`, and none while the limit on the depth of calls is another one than
at the start.  Then the run ends in one way for all fuel beyond the room that the stack of
frames has; no call makes the stack higher than the limit; and at the limit a call is
refused without anything else being done, be it called from here or from anywhere. -/
theorem runScript_settles {script : List Statement} {s : State}
    (hscript : Statement.NoWhileBlock script)
    (hfunctions : s.session.functions.Every fun f => Statement.NoWhileBlock f.function.body)
    (hdepth : s.session.vars.depth ≤ s.session.maxCallDepth)
    (hcalls : ∀ fuel, Avoids (Evades s.session.maxCallDepth) fuel script s) :
    (∃ r s', r ≠ .outOfFuel ∧ ∀ fuel, s.session.maxCallDepth < s.session.vars.depth + fuel →
      runScript fuel script s = (r, s')) ∧
    (∀ fuel, Avoids (Exceeds s.session.maxCallDepth) fuel script s) ∧
    ∀ (t : State) (f : DefinedFunction) (name : String) (args : List Value) (site : CallSite),
      Callee.ofName t name = .user f →
      f.function.signature.checkArity args.length = .ok () →
      (f.function.signature.flags.dict → site.dict ≠ none) →
      t.session.maxCallDepth ≤ t.session.vars.depth →
      ∀ call fuel, callStep call fuel name args site t =
        (.failed (.eval .callDepthExceeded), t) := by
  refine ⟨?_, fun fuel => (hcalls fuel).exceeds, fun t f name args site hname harity hdict hfull =>
    callStep_of_depth hname harity hdict hfull⟩
  obtain ⟨room, hroom⟩ := Nat.exists_eq_add_of_le hdepth
  have hready : s.Ready s.session.vars.depth := ⟨hfunctions, rfl⟩
  have hsettles {fuel : Nat} (hfuel : room < fuel) :=
    settles_runScriptWith (settles_diverted hroom.symm (Nat.lt_succ_self room) hfuel)
      (room + 1) fuel hscript s hready
  -- all runs with enough fuel are the one with just enough
  have hrun {fuel : Nat} (hfuel : room < fuel) :
      runScript fuel script s = runScript (room + 1) script s := by
    rw [← hcalls fuel refusal, (hsettles hfuel).1, hcalls (room + 1) refusal]
  have hend : (runScript (room + 1) script s).1 ≠ .outOfFuel := by
    rw [← hcalls (room + 1) refusal]
    exact (hsettles (Nat.lt_succ_self room)).2.1
  exact ⟨_, _, hend, fun fuel hfuel => hrun (by omega)⟩

/-- A function that does nothing but call itself, where one function may run at once: the call
inside it is refused, and the script ends. -/
theorem runScript_settles_of_recursion :
    ∃ s : State, s.session.maxCallDepth = 1 ∧
      Callee.ofName s "F" = .user ⟨⟨.named "F", [.leave (some (.call "F" []))]⟩, none⟩ ∧
      (s.session.functions.Every fun f => Statement.NoWhileBlock f.function.body) ∧
      s.session.vars.depth = 0 ∧
      (∀ fuel, Avoids (Evades 1) fuel [.command (.call none "F" [])] s) ∧
      (∃ r s', r ≠ .outOfFuel ∧
        ∀ fuel, 1 < fuel → runScript fuel [.command (.call none "F" [])] s = (r, s')) ∧
      ∀ fuel, Avoids (Exceeds 1) fuel [.command (.call none "F" [])] s := by
  let f : DefinedFunction := ⟨⟨.named "F", [.leave (some (.call "F" []))]⟩, none⟩
  let s : State :=
    { session :=
        { (default : Session) with
          vars := .initial
          functions := ⟨Dict.empty.insert "F" f, .empty⟩
          settings := Settings.empty.declareAll [Catalogue.bounded "maxfuncdepth" "mfd" 1 1 100] }
      editor := default }
  have hscript : Statement.NoWhileBlock [.command (.call none "F" [])] := by
    simp only [Statement.NoWhileBlock, Statement.NoWhile, and_self]
  have hfunctions :
      s.session.functions.Every fun f => Statement.NoWhileBlock f.function.body := by
    intro scope name g hg
    cases scope with
    | globals =>
      have hbody : Statement.NoWhileBlock f.function.body := by
        simp only [f, Statement.NoWhileBlock, Statement.NoWhile, and_self]
      have hget : (Dict.empty.insert "F" f).get? name = some g := hg
      rw [Dict.get?_insert] at hget
      split at hget
      · cases hget
        exact hbody
      · cases hget
    | script => cases hg
  -- with fuel for two calls, the run is over before the fuel is
  have hcalls : ∀ fuel, Avoids (Evades s.session.maxCallDepth) fuel
      [.command (.call none "F" [])] s := by
    intro fuel p
    match fuel with
    | 0 => rfl
    | 1 => rfl
    | n + 2 => rfl
  obtain ⟨⟨r, s', hend, hrun⟩, hheight, -⟩ :=
    runScript_settles hscript hfunctions (show 0 ≤ 1 by omega) hcalls
  refine ⟨s, rfl, rfl, hfunctions, rfl, hcalls,
    ⟨r, s', hend, fun fuel hfuel => hrun fuel ?_⟩, hheight⟩
  show 1 < 0 + fuel
  omega

end Runs

end ModalScript
