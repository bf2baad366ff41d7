/-
The interpreter does only what it may do.

Each part of the interpreter is confined to its layer, in the order of the definitions:
built-in functions and expressions, for which it is enough that confinement is a
`Congruence`, commands, statements, and calls.  All but the last are proved for any `Caller`
that is itself confined; `confined_callFunction` ties the knot by
induction on the fuel, after which nothing is assumed any more.
-/
import ModalScript.Proofs.Script.Parts
import ModalScript.Proofs.Script.Points
import ModalScript.Proofs.Script.Preparing

namespace ModalScript

open Interp

/-- Every call does only what an expression may do. -/
def Caller.Confined (call : Caller) : Prop :=
  ∀ name args site, (call name args site).Confined .expression

section Interpreter

variable {call : Caller}

/-! ### Expressions -/

/-- What is confined to expressions is closed under all that evaluation does. -/
theorem Interp.congruence_confined : Congruence fun m _ => m.Confined .expression where
  value := confined_pure
  failure e := confined_fail (.eval e)
  reading := confined_readExcept
  growing _ := confined_onHeap _
  sequence := Confined.bind

/-- Built-in functions change nothing but the heap, and call functions. -/
theorem Builtin.confined_run (hcall : call.Confined) (b : Builtin) (args : List Value)
    (site : CallSite) : (b.run call args site).Confined .expression :=
  @Congruence.run _ call call congruence_confined b (fun _ => hcall)
    (fun _ _ _ => confined_onHeap _) args site

/-- So do expressions. -/
theorem Expr.confined_evaluate (hcall : call.Confined) (e : Expr) :
    (e.evaluate call).Confined .expression :=
  @Congruence.evaluate _ call call congruence_confined hcall e

theorem Expr.confined_evaluateAll (hcall : call.Confined) (es : List Expr) :
    (evaluateAll call es).Confined .expression :=
  @Congruence.evaluateAll _ call call congruence_confined hcall es

/-! ### Commands -/

namespace Command

/-- An assignment stores a variable or an element, or writes a setting. -/
theorem confined_assignTo (hcall : call.Confined) (op : LetOperator) (new : Value)
    (target : LetTarget) : (assignTo call op new target).Confined .statement := by
  cases target with
  | «variable» v =>
    exact (confined_combine op new (confined_readExcept _)).statement.bind fun x =>
      confined_store v x
  -- an element lies in the heap, so that this is an effect of an expression
  | index base place =>
    refine .statement ?_
    exact (Expr.confined_evaluate hcall base).bind fun container =>
      (Expr.confined_evaluate hcall place).bind fun key => confined_assignElement _ _ _ _
  | setting access name =>
    refine (confined_combine op new (confined_readExcept _)).statement.bind fun x s => ?_
    -- the scope is the one of the editor in this very state
    show Effect .statement s (configure (Settings.assign s.session.heap _ name x) s).2
    exact effect_configure
      (Settings.rewritten_write (.assign s.session.heap x) _ name (access.scope_eq_or _))

/-- Showing values is an effect of a statement, and raising them as an error is none. -/
theorem confined_echoValues (hcall : call.Confined) (isError : Bool) (es : List Expr) :
    (echoValues call isError es).Confined .statement := by
  have hparts : (echoParts call es).Confined .expression :=
    @Congruence.echoParts _ call call congruence_confined hcall es
  refine hparts.statement.bind fun parts => ?_
  simp only
  split
  · exact confined_fail _
  · exact fun s => .echo s _

theorem confined_process (hcall : call.Confined) (c : Command) :
    (c.process call).Confined .statement := by
  cases c with
  | assign target op value =>
    exact (Expr.confined_evaluate hcall value).statement.bind fun new =>
      confined_assignTo hcall op new target
  | echo isError values => exact confined_echoValues hcall isError values
  | call range name args =>
    exact .statement ((Expr.confined_evaluateAll hcall args).bind fun vs =>
      (hcall _ _ _).bind fun _ => confined_pure _)
  | text command line =>
    cases command with
    | delete => exact confined_deleteLines line
    | deleteFunction => exact confined_deleteFunction line
    | print => exact confined_printLines line
    | set kind => exact confined_changeSettings kind line
    | unlet => exact confined_removeVariables line

/-- A command that is refused does nothing. -/
theorem confined_execute (hcall : call.Confined) (c : Command) :
    (c.execute call).Confined .statement := by
  intro s
  unfold execute
  split
  · exact confined_process hcall c s
  · exact .refl _ s

end Command

/-! ### Statements -/

/-- All that statements do besides their commands is confined to statements. -/
theorem carries_effect (hcall : call.Confined) : Carries call (Effect .statement) where
  toLasting := lasting_effect .statement
  evaluate e := (Expr.confined_evaluate hcall e).statement
  store := confined_store
  define := confined_defineFunction
  follow := effect_follow

theorem Statement.confined_execute (hcall : call.Confined) (fuel : Nat) (st : Statement) :
    (st.execute call fuel).Confined .statement :=
  fun s => (carries_effect hcall).execute st s fun c t _ => c.confined_execute hcall t

theorem Statement.confined_executeBlock (hcall : call.Confined) (fuel : Nat)
    (sts : List Statement) : (executeBlock call fuel sts).Confined .statement :=
  fun s => (carries_effect hcall).executeBlock sts s fun c t _ => c.confined_execute hcall t

/-! ### Bodies of functions -/

/-- A body does what its statements do. -/
theorem effect_runBody (hcall : call.Confined) (fuel : Nat) (policy : BodyPolicy)
    (body : List Statement) (ds : Diagnostics) (s : State) :
    Effect .statement s (runBody call fuel policy body ds s).2 :=
  (carries_effect hcall).runBody (fun c t _ => c.confined_execute hcall t) ds

theorem confined_runLines (hcall : call.Confined) (fuel : Nat) (policy : BodyPolicy)
    (moves : Bool) (body : List Statement) (count line : Nat) (returned : Option Value)
    (ds : Diagnostics) :
    (runLines call fuel policy moves body count line returned ds).Confined .statement :=
  fun _ => (carries_effect hcall).runLines (fun c t _ => c.confined_execute hcall t) returned ds

/-! ### Calls -/

/-- Everything that comes before a body is confined to invocations. -/
theorem Interp.preparing_confined : Preparing fun m _ => m.Confined .invocation where
  value := confined_pure
  failure e := confined_fail (.eval e)
  reading := confined_readExcept
  growing _ := (confined_onHeap _).statement.invocation
  sequence := Confined.bind
  binding := confined_bindArgument
  storing v x := (confined_store v x).invocation

theorem Caller.Confined.related (hcall : call.Confined) :
    Caller.Related (fun m _ => m.Confined .invocation) call call :=
  fun name args site => (hcall name args site).statement.invocation

theorem confined_bindArguments (hcall : call.Confined) (signature : Signature) (args : List Value) :
    (bindArguments call signature args).Confined .invocation :=
  @Preparing.bindArguments _ call call preparing_confined hcall.related signature args

/-- An invocation binds its arguments and then does what statements do. -/
theorem confined_runInvocation (hcall : call.Confined) (fuel : Nat) (f : Function)
    (args : List Value) (dict : Option DictRef) (span : LineSpan) :
    (runInvocation call fuel f args dict span).Confined .invocation := by
  have hprepare : (prepare call f args dict span.range).Confined .invocation :=
    @Preparing.prepare _ call call preparing_confined hcall.related f args dict span.range
  rw [runInvocation_eq]
  exact hprepare.bind fun _ => (confined_runLines hcall fuel _ _ _ _ _ _ _).invocation.bind
    fun r => (confined_reportLast r.2).invocation.bind fun _ => confined_pure _

/-- A call of a registered function is one effect. -/
theorem effect_invoke (hcall : call.Confined) (fuel : Nat) {s : State} {name : String}
    {f : DefinedFunction} (hf : s.session.functions.get? name = some f) (args : List Value)
    (site : CallSite) : Effect .expression s (invoke call fuel f args site s).2 := by
  cases hcheck : checkCall s f.function.signature args site with
  | error e =>
    rw [invoke_of_refused hcheck]
    exact .refl _ s
  | ok =>
    rw [invoke_of_accepted hcheck]
    -- the frame is counted before it is pushed
    exact .call name hf (depth_lt_of_checkCall hcheck)
      (confined_runInvocation hcall fuel _ _ _ _ (s.enter f))

/-- A call is an effect of an expression, if the calls inside of it are. -/
theorem confined_callStep (hcall : call.Confined) (fuel : Nat) : (callStep call fuel).Confined := by
  intro name args site s
  show Effect .expression s ((Callee.ofName s name).enter call fuel name args site s).2
  cases hcallee : Callee.ofName s name with
  | user f => exact effect_invoke hcall fuel (Callee.get?_of_ofName hcallee) args site
  | builtin b => exact b.confined_run hcall args site s
  | reference target => exact hcall target args site s
  | unknown => exact .refl _ s

end Interpreter

/-- **Confinement.**  Calls do only what an expression may do, however deep they go. -/
theorem confined_callFunction (fuel : Nat) : (callFunction fuel).Confined := by
  induction fuel with
  | zero => exact fun _ _ _ => confined_exhausted
  | succ fuel ih => exact confined_callStep ih fuel

/-- Running a script does only what statements may do. -/
theorem confined_runScript (fuel : Nat) (script : List Statement) :
    (runScript fuel script).Confined .statement := by
  induction script with
  | nil => exact fun s => .refl _ s
  | cons st sts ih =>
    intro s
    have hs := Within.collecting (Statement.confined_execute (confined_callFunction fuel) fuel st) s
    unfold runScript
    rcases hr : (st.execute (callFunction fuel) fuel).collecting s with ⟨r, s₁⟩
    rw [hr] at hs
    -- a problem at the top is reported, whether the script goes on or not
    cases r with
    | value signal =>
      simp only
      split
      · exact hs.trans ((effect_report s₁ _).trans (ih _))
      · exact hs.trans (effect_report s₁ _)
    | failed e =>
      cases e with
      | finish => exact hs
      | _ => exact hs.trans (.reportError s₁ _)
    | outOfFuel => exact hs

end ModalScript
