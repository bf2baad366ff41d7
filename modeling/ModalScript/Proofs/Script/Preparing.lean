/-
What a call does before its body.

A call binds its arguments, the lines that it is for, and the dictionary on which it is made,
and then its body runs (`prepare`, `runInvocation_eq`).  Besides evaluating defaults this binds
arguments in the frame of the call and stores a local variable.  A congruence that respects
these two as well is `Interp.Preparing`, and then all that comes before the body respects it
(`Preparing.prepare`).
-/
import ModalScript.Proofs.Script.Congruence
import ModalScript.Proofs.Script.Lasting

namespace ModalScript

/-- Gives a function all that its body finds in the frame of a call. -/
def prepare (call : Caller) (f : Function) (args : List Value) (dict : Option DictRef)
    (range : LineRange) : Interp Unit := do
  bindArguments call f.signature args
  .bindArgument "firstline" (.integer (Decimal.clamp range.first))
  .bindArgument "lastline" (.integer (Decimal.clamp range.last))
  match dict with
  | some r => .store ⟨some .locals, "self"⟩ (.dict r)
  | none => pure ()

/-- An invocation is what comes before the body, and the body. -/
theorem runInvocation_eq (call : Caller) (fuel : Nat) (f : Function) (args : List Value)
    (dict : Option DictRef) (span : LineSpan) :
    runInvocation call fuel f args dict span = (do
      prepare call f args dict span.range
      let r ← runLines call fuel (if f.signature.flags.abort then .abort else .resume)
        span.moves f.body span.range.length span.range.first none {}
      reportLast r.2
      return r.1.getD (.integer 0)) := by
  unfold runInvocation prepare
  simp only [bind_assoc]
  cases dict with
  | some r => rfl
  | none => rfl

namespace Interp

/-- A congruence that the binding of arguments and the storing of a variable respect. -/
structure Preparing (R : {α : Type} → Interp α → Interp α → Prop) : Prop extends
    Congruence R where
  binding (name : String) (x : Value) : R (bindArgument name x) (bindArgument name x)
  storing (v : VariableName) (x : Value) : R (store v x) (store v x)

namespace Preparing

variable {R : {α : Type} → Interp α → Interp α → Prop} {call call' : Caller}

/-- The parameters that must be passed take their arguments in order. -/
theorem bindRequired (hR : Preparing R) (names : List String) (args : List Value) :
    R (ModalScript.bindRequired names args) (ModalScript.bindRequired names args) := by
  induction names generalizing args with
  | nil => exact hR.value _
  | cons name names ih => exact hR.sequence (hR.binding _ _) fun _ => ih _

/-- A default is evaluated where an argument is missing. -/
theorem bindOptional (hR : Preparing R) (hcall : Caller.Related R call call')
    (parameters : List (String × Expr)) (args : List Value) :
    R (ModalScript.bindOptional call parameters args)
      (ModalScript.bindOptional call' parameters args) := by
  induction parameters generalizing args with
  | nil => exact hR.value _
  | cons p parameters ih =>
    obtain ⟨name, default⟩ := p
    unfold ModalScript.bindOptional
    -- an argument counts as a value, so that both cases go on alike
    cases args with
    | nil =>
      exact hR.sequence (hR.evaluate hcall default) fun v =>
        hR.sequence (hR.binding _ _) fun _ => ih _
    | cons v args =>
      exact hR.sequence (hR.value v) fun v => hR.sequence (hR.binding _ _) fun _ => ih _

theorem bindNumbered (hR : Preparing R) (n : Nat) (vs : List Value) :
    R (ModalScript.bindNumbered n vs) (ModalScript.bindNumbered n vs) := by
  induction vs generalizing n with
  | nil => exact hR.value _
  | cons v vs ih => exact hR.sequence (hR.binding _ _) fun _ => ih _

/-- The surplus arguments are bound one by one, and then their list. -/
theorem bindSurplus (hR : Preparing R) (args : List Value) :
    R (ModalScript.bindSurplus args) (ModalScript.bindSurplus args) :=
  hR.sequence (hR.binding _ _) fun _ => hR.sequence (hR.bindNumbered 1 args) fun _ =>
    hR.sequence (hR.growing (Allocating.grows_newList args)) fun _ => hR.binding _ _

theorem bindArguments (hR : Preparing R) (hcall : Caller.Related R call call')
    (signature : Signature) (args : List Value) :
    R (ModalScript.bindArguments call signature args)
      (ModalScript.bindArguments call' signature args) := by
  refine hR.sequence (hR.bindRequired _ args) fun args =>
    hR.sequence (hR.bindOptional hcall _ args) fun args => ?_
  split
  · exact hR.bindSurplus args
  · exact hR.value _

/-- Binding the arguments comes first, then the lines of the call, and the dictionary last. -/
theorem prepare (hR : Preparing R) (hcall : Caller.Related R call call') (f : Function)
    (args : List Value) (dict : Option DictRef) (range : LineRange) :
    R (ModalScript.prepare call f args dict range)
      (ModalScript.prepare call' f args dict range) := by
  refine hR.sequence (hR.bindArguments hcall f.signature args) fun _ =>
    hR.sequence (hR.binding _ _) fun _ => hR.sequence (hR.binding _ _) fun _ => ?_
  -- a dictionary is stored as a local variable
  cases dict with
  | some r => exact hR.storing _ _
  | none => exact hR.value ()

end Preparing

end Interp

end ModalScript
