/-
Running statements.

Jumps travel as signals, never as errors: a loop takes `broken` and `continued`, and the
body of a function takes `returned`.  An error that may be collected becomes a signal at the
statement of a block that raised it.

Running follows the statement, except that a `while` loop goes round as often as the fuel
allows.
-/
import ModalScript.Command.Run

namespace ModalScript

/-! ### Loops -/

/-- What the signal of a loop's body means for the loop: to go on, or to end with a signal. -/
def Signal.afterBody : Signal → Option Signal
  | .done | .continued => none
  | .broken => some .done
  | signal => some signal

/-- Runs a body as long as a condition holds, at most `fuel` times. -/
def whileLoop (test : Interp Bool) (body : Interp Signal) : Nat → Interp Signal
  | 0, s => (.outOfFuel, s)
  | fuel + 1, s =>
    match test s with
    | (.value true, s) =>
      match body s with
      | (.value signal, s) =>
        match signal.afterBody with
        | none => whileLoop test body fuel s
        | some signal => (.value signal, s)
      | (.failed e, s) => (.failed e, s)
      | (.outOfFuel, s) => (.outOfFuel, s)
    | (.value false, s) => (.value .done, s)
    | (.failed e, s) => (.failed e, s)
    | (.outOfFuel, s) => (.outOfFuel, s)

/-- Runs a body for one value after the other, each of them stored in a variable. -/
def forLoop (target : VariableName) (body : Interp Signal) : List Value → Interp Signal
  | [], s => (.value .done, s)
  | v :: vs, s =>
    match (do Interp.store target v; body) s with
    | (.value signal, s) =>
      match signal.afterBody with
      | none => forLoop target body vs s
      | some signal => (.value signal, s)
    | (.failed e, s) => (.failed e, s)
    | (.outOfFuel, s) => (.outOfFuel, s)

/-! ### Definitions -/

/-- The local variables that a function sees from the function that defines it. -/
def capturedBy (s : Session) (signature : Signature) : Except ExecError (Option LocalsRef) :=
  if signature.flags.closure then
    match s.vars.frame? with
    | some f => .ok (some f.locals)
    | none => .error (.statement "E932: Closure function should not be at top level")
  else .ok none

/-- Adds a function to those of the session. -/
def defineFunction (signature : Signature) (body : List Statement) : Interp Unit := fun s =>
  let functions := do
    let captured ← capturedBy s.session signature
    s.session.functions.define { function := { signature, body }, captured }
  match functions with
  | .ok functions => (.value (), { s with session := { s.session with functions } })
  | .error e => (.failed e, s)

/-! ### Statements -/

namespace Statement

/-- The elements that a loop goes through. -/
def loopItems (v : Value) : Interp (List Value) :=
  .readExcept fun s => v.toList.map s.session.heap.items

mutual

/-- Runs a statement. -/
def execute (call : Caller) (fuel : Nat) : Statement → Interp Signal
  | .command c => do
    c.execute call
    return .done
  | .branch cases otherwise => executeCases call fuel (executeBlock call fuel otherwise) cases
  | .whileLoop test body =>
    ModalScript.whileLoop (do Expr.condition (← test.evaluate call)) (executeBlock call fuel body)
      fuel
  | .forLoop target items body => do
    let v ← items.evaluate call
    let vs ← loopItems v
    ModalScript.forLoop target (executeBlock call fuel body) vs
  | .breakLoop => pure .broken
  | .continueLoop => pure .continued
  | .leave none => pure (.returned (.integer 0))
  | .leave (some e) => do
    let v ← e.evaluate call
    return .returned v
  | .finish => .fail .finish
  | .define signature body => do
    defineFunction signature body
    return .done

/-- Runs statements up to the first one that does not end normally. -/
def executeBlock (call : Caller) (fuel : Nat) : List Statement → Interp Signal
  | [] => pure .done
  | st :: sts => do
    match ← (execute call fuel st).collecting with
    | .done => executeBlock call fuel sts
    | signal => pure signal

/-- Runs the block of the first condition that holds, or else `otherwise`. -/
def executeCases (call : Caller) (fuel : Nat) (otherwise : Interp Signal) :
    List (Expr × List Statement) → Interp Signal
  | [] => otherwise
  | (test, block) :: cases => do
    if ← Expr.condition (← test.evaluate call) then executeBlock call fuel block
    else executeCases call fuel otherwise cases

end

end Statement

/-! ### Bodies of functions -/

/-- What the body of a function does about a problem. -/
inductive BodyPolicy where
  /-- It ends. -/
  | abort
  /-- It notes the problem and goes on. -/
  | resume
  deriving DecidableEq

/-- The problem that a signal is for the body of a function, where no loop takes it. -/
def Signal.problem? : Signal → Option Diagnostic
  | .broken => some .breakWithoutLoop
  | .continued => some .continueWithoutLoop
  | .failed text => some (.failure text)
  | .done | .returned _ => none

/-- Runs the body of a function once, noting its problems, and gives what it returned. -/
def runBody (call : Caller) (fuel : Nat) (policy : BodyPolicy) :
    List Statement → Diagnostics → State → (Outcome (Option Value) × Diagnostics) × State
  | [], ds, s => ((.value none, ds), s)
  | st :: sts, ds, s =>
    match (st.execute call fuel).collecting s with
    | (.failed e, s) => ((.failed e, ds), s)
    | (.outOfFuel, s) => ((.outOfFuel, ds), s)
    | (.value .done, s) => runBody call fuel policy sts ds s
    | (.value (.returned v), s) => ((.value (some v), ds), s)
    | (.value signal, s) =>
      match signal.problem? with
      | none => runBody call fuel policy sts ds s
      | some d =>
        match policy with
        | .abort => ((.value none, ds.add d), s)
        | .resume => runBody call fuel policy sts (ds.add d) s

end ModalScript
