/-
Calling functions.

A name means a user-defined function, or else a built-in one, or else a variable that holds
a reference to a function.  A user-defined function runs in a frame of its own; its
arguments, the call on a dictionary and the depth of calls are checked before there is a
frame.  `callFunction` ties calls and statements together: each call inside a call costs one
unit of fuel.
-/
import ModalScript.Script.Execute

namespace ModalScript

/-! ### Arguments -/

/-- Gives the required parameters their arguments; the arguments left over are the answer. -/
def bindRequired : List String → List Value → Interp (List Value)
  | [], args => pure args
  | name :: names, args => do
    .bindArgument name (args.headD (.integer 0))
    bindRequired names args.tail

/-- Gives the optional parameters their arguments, or the values of their defaults, which see
the parameters before them; the arguments left over are the answer. -/
def bindOptional (call : Caller) : List (String × Expr) → List Value → Interp (List Value)
  | [], args => pure args
  | (name, default) :: parameters, args => do
    let v ← match args with
      | v :: _ => pure v
      | [] => default.evaluate call
    .bindArgument name v
    bindOptional call parameters args.tail

/-- Gives surplus arguments their numbers, from `n` on. -/
def bindNumbered (n : Nat) : List Value → Interp Unit
  | [] => pure ()
  | v :: vs => do
    .bindArgument n.repr v
    bindNumbered (n + 1) vs

/-- Gives a variadic function the number of its surplus arguments, each of them by its number,
and the list of them. -/
def bindSurplus (args : List Value) : Interp Unit := do
  .bindArgument "0" (Builtin.count args.length)
  bindNumbered 1 args
  let list ← .onHeap (Allocating.newList args)
  .bindArgument "000" list

/-- Gives the parameters of a function their values. -/
def bindArguments (call : Caller) (signature : Signature) (args : List Value) : Interp Unit := do
  let args ← bindRequired signature.required args
  let args ← bindOptional call signature.optional args
  if signature.variadic then bindSurplus args else pure ()

/-! ### Invocation -/

/-- The lines for which a function runs, and whether the cursor follows them. -/
structure LineSpan where
  range : LineRange
  moves : Bool

/-- The lines of an invocation: the range of the call if the function asks for it, and else
the line of the cursor. -/
def LineSpan.ofCall (flags : FunctionFlags) (range : Option LineRange) (currentLine : Nat) :
    LineSpan :=
  if flags.perLine then
    { range := range.getD (.single currentLine), moves := range.isSome }
  else { range := .single currentLine, moves := false }

/-- Puts the cursor on a line, counted from 1, if it is to follow the lines. -/
def State.follow (s : State) (moves : Bool) (line : Nat) : State :=
  if moves then { s with editor := s.editor.goTo (line - 1) } else s

/-- Runs the body of a function for so many lines from `line` on.  The answer is what the
last run that returned something returned, with the problems of all runs. -/
def runLines (call : Caller) (fuel : Nat) (policy : BodyPolicy) (moves : Bool)
    (body : List Statement) :
    (count line : Nat) → Option Value → Diagnostics → Interp (Option Value × Diagnostics)
  | 0, _, returned, ds, s => (.value (returned, ds), s)
  | count + 1, line, returned, ds, s =>
    match runBody call fuel policy body ds (s.follow moves line) with
    | ((.value v, ds), s) =>
      runLines call fuel policy moves body count (line + 1) (v.or returned) ds s
    | ((.failed e, _), s) => (.failed e, s)
    | ((.outOfFuel, _), s) => (.outOfFuel, s)

/-- Shows the last problem of an invocation. -/
def reportLast (ds : Diagnostics) : Interp Unit :=
  .changeSession (·.report ds.last)

/-- Runs a function in the frame that has been made for it. -/
def runInvocation (call : Caller) (fuel : Nat) (f : Function) (args : List Value)
    (dict : Option DictRef) (span : LineSpan) : Interp Value := do
  bindArguments call f.signature args
  .bindArgument "firstline" (.integer (Decimal.clamp span.range.first))
  .bindArgument "lastline" (.integer (Decimal.clamp span.range.last))
  match dict with
  | some r => .store ⟨some .locals, "self"⟩ (.dict r)
  | none => pure ()
  let policy := if f.signature.flags.abort then .abort else .resume
  let (returned, ds) ←
    runLines call fuel policy span.moves f.body span.range.length span.range.first none {}
  reportLast ds
  return returned.getD (.integer 0)

/-- Refuses a call with a wrong number of arguments, without the dictionary that the function
asks for, or too deep inside other calls. -/
def checkCall (s : State) (signature : Signature) (args : List Value) (site : CallSite) :
    Except EvalError Unit :=
  match signature.checkArity args.length with
  | .error e => .error (.arity e)
  | .ok () =>
    if signature.flags.dict ∧ site.dict = none then
      .error (.dictFunctionWithoutDict signature.qualifiedName)
    else if s.session.maxCallDepth ≤ s.session.vars.depth then .error .callDepthExceeded
    else .ok ()

/-- Calls a user-defined function. -/
def invoke (call : Caller) (fuel : Nat) (f : DefinedFunction) (args : List Value)
    (site : CallSite) : Interp Value := do
  let signature := f.function.signature
  .readExcept fun s => checkCall s signature args site
  let span ← .read fun s => LineSpan.ofCall signature.flags site.range s.currentLine
  .inFrame signature.qualifiedName f.captured
    (runInvocation call fuel f.function args site.dict span)

/-! ### Resolving names -/

/-- What a name means when something is called by it. -/
inductive Callee where
  | user (f : DefinedFunction)
  | builtin (b : Builtin)
  /-- A variable that holds a reference to a function of another name. -/
  | reference (name : String)
  | unknown

/-- What a name means in a state. -/
def Callee.ofName (s : State) (name : String) : Callee :=
  match s.session.functions.get? name, Builtin.ofName? name with
  | some f, _ => .user f
  | none, some b => .builtin b
  | none, none =>
    match s.lookup (.parse name) with
    | some (.funcref target) => if target = name then .unknown else .reference target
    | _ => .unknown

/-- Calls what a name means. -/
def Callee.enter (call : Caller) (fuel : Nat) (name : String) (args : List Value)
    (site : CallSite) : Callee → Interp Value
  | .user f => invoke call fuel f args site
  | .builtin b => b.run call args site
  | .reference target => call target args site
  | .unknown => .fail (.eval (.unknownFunction name))

/-- Calls the function that a name means, where `call` is used for all calls inside it. -/
def callStep (call : Caller) (fuel : Nat) : Caller := fun name args site => do
  let callee ← .read fun s => Callee.ofName s name
  callee.enter call fuel name args site

/-- Calls the function that a name means. -/
def callFunction : Nat → Caller
  | 0 => fun _ _ _ => .exhausted
  | fuel + 1 => callStep (callFunction fuel) fuel

end ModalScript
