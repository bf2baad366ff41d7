/-
The variables of a session.

Global and script variables and those of the editor itself are kept once, the variables of
a buffer, window or tab once for each editor.  Every running function has a `Frame` on a
stack, with its arguments and a reference to its local variables; the local variables are
kept apart from the frame because a function defined inside another one can see them after
the outer one has ended.  A name without a scope means a variable of the innermost frame,
or else a global one.
-/
import ModalScript.Editor.PerEditor
import ModalScript.Script.Error
import ModalScript.Script.Name

namespace ModalScript

/-- A reference to the local variables of one invocation. -/
structure LocalsRef where
  slot : Nat
  deriving DecidableEq, Inhabited

/-- A running function. -/
structure Frame where
  function : String
  arguments : Dict Value
  locals : LocalsRef
  /-- The local variables of the function that defined this one. -/
  captured : Option LocalsRef
  deriving Inhabited

/-- A running function with one more argument. -/
def Frame.bind (name : String) (x : Value) (f : Frame) : Frame :=
  { f with arguments := f.arguments.insert name x }

/-- The variables of a session. -/
structure Variables where
  globals : Dict Value
  script : Dict Value
  builtins : Dict Value
  buffers : PerEditor (Dict Value)
  windows : PerEditor (Dict Value)
  tabs : PerEditor (Dict Value)
  /-- The local variables of all invocations so far. -/
  localTables : Array (Dict Value)
  /-- The running functions, the innermost one first. -/
  frames : List Frame
  /-- The local variables of a running function exist. -/
  allocated : ∀ f ∈ frames, f.locals.slot < localTables.size

namespace Variables

/-- The variables that the editor itself provides. -/
def initialBuiltins : Dict Value :=
  .ofList
    [("version", .integer 900), ("true", .integer 1), ("false", .integer 0),
      ("count", .integer 0), ("errmsg", .string "")]

/-- The variables of a new session. -/
def initial : Variables :=
  { globals := .empty
    script := .empty
    builtins := initialBuiltins
    buffers := .empty
    windows := .empty
    tabs := .empty
    localTables := #[]
    frames := []
    allocated := List.forall_mem_nil _ }

instance : Inhabited Variables :=
  ⟨initial⟩

/-! ### Frames -/

/-- The number of running functions. -/
def depth (vs : Variables) : Nat :=
  vs.frames.length

/-- The innermost running function. -/
def frame? (vs : Variables) : Option Frame :=
  vs.frames.head?

/-- Starts a function, with no arguments and no local variables yet. -/
def push (vs : Variables) (function : String) (captured : Option LocalsRef) : Variables :=
  { vs with
    localTables := vs.localTables.push .empty
    frames := ⟨function, .empty, ⟨vs.localTables.size⟩, captured⟩ :: vs.frames
    allocated := by
      rw [Array.size_push]
      exact List.forall_mem_cons.mpr
        ⟨Nat.lt_succ_self _, fun f hf => Nat.lt_succ_of_lt (vs.allocated f hf)⟩ }

/-- Ends the innermost function. -/
def pop (vs : Variables) : Variables :=
  { vs with
    frames := vs.frames.tail
    allocated := fun f hf => vs.allocated f (List.mem_of_mem_tail hf) }

/-- Gives the innermost function an argument. -/
def bindArgument (vs : Variables) (name : String) (x : Value) : Variables :=
  { vs with
    frames := vs.frames.modifyHead (Frame.bind name x)
    allocated := by
      have h := vs.allocated
      cases hfs : vs.frames with
      | nil => exact List.forall_mem_nil _
      | cons f fs =>
        rw [hfs] at h
        exact List.forall_mem_cons.mpr ⟨h f List.mem_cons_self, (List.forall_mem_cons.mp h).2⟩ }

/-- The local variables of an invocation. -/
def localTable (vs : Variables) (r : LocalsRef) : Dict Value :=
  vs.localTables[r.slot]?.getD .empty

/-- Gives an invocation other local variables. -/
def setLocalTable (vs : Variables) (r : LocalsRef) (d : Dict Value) : Variables :=
  { vs with
    localTables := vs.localTables.setIfInBounds r.slot d
    allocated := by
      rw [Array.size_setIfInBounds]
      exact vs.allocated }

/-- Gives a local variable of an invocation a value. -/
def setLocal (vs : Variables) (r : LocalsRef) (name : String) (x : Value) : Variables :=
  vs.setLocalTable r ((vs.localTable r).insert name x)

/-- Gives a variable of the editor itself a value. -/
def setBuiltin (vs : Variables) (name : String) (x : Value) : Variables :=
  { vs with builtins := vs.builtins.insert name x }

/-! ### Reading -/

/-- The value of a name without a scope in a running function: a local variable, else an
argument, else a captured variable. -/
def inFrame? (vs : Variables) (f : Frame) (name : String) : Option Value :=
  ((vs.localTable f.locals).get? name).or
    ((f.arguments.get? name).or (f.captured.bind fun r => (vs.localTable r).get? name))

/-- The value of a variable, as it is seen from an editor. -/
def get? (vs : Variables) (v : VariableName) (id : EditorId) : Option Value :=
  match v.scope with
  | none =>
    (vs.frame?.bind fun f => vs.inFrame? f v.name).or
      ((vs.globals.get? v.name).or (vs.builtins.get? v.name))
  | some .globals => vs.globals.get? v.name
  | some .script => vs.script.get? v.name
  | some .arguments => vs.frame?.bind fun f => f.arguments.get? v.name
  | some .locals => vs.frame?.bind fun f => (vs.localTable f.locals).get? v.name
  | some .buffer => (vs.buffers.get? id).bind (·.get? v.name)
  | some .window => (vs.windows.get? id).bind (·.get? v.name)
  | some .tab => (vs.tabs.get? id).bind (·.get? v.name)
  | some .builtins => vs.builtins.get? v.name

/-- The value of a variable that is expected to exist. -/
def get (vs : Variables) (v : VariableName) (id : EditorId) : Except EvalError Value :=
  match vs.get? v id with
  | some x => .ok x
  | none => .error (.undefinedVariable v.text)

/-! ### Writing -/

/-- The variables of the editor itself that a script may assign. -/
def assignableBuiltins : List String :=
  ["errmsg"]

/-- The local variables that an assignment without a scope changes in a running function: the
captured ones if the name is among them and not among its own. -/
def assignedLocals (vs : Variables) (f : Frame) (name : String) : LocalsRef :=
  match f.captured with
  | some r =>
    if ¬(vs.localTable f.locals).contains name ∧ (vs.localTable r).contains name then r
    else f.locals
  | none => f.locals

/-- Something kept for an editor, with the value of a name replaced in it. -/
def insertFor (m : PerEditor (Dict Value)) (id : EditorId) (name : String) (x : Value) :
    PerEditor (Dict Value) :=
  m.set id (((m.get? id).getD .empty).insert name x)

/-- Gives a variable a value, as an editor does it. -/
def store (vs : Variables) (v : VariableName) (x : Value) (id : EditorId) :
    Except EvalError Variables :=
  match v.scope with
  | none =>
    match vs.frame? with
    | some f => .ok (vs.setLocal (vs.assignedLocals f v.name) v.name x)
    | none => .ok { vs with globals := vs.globals.insert v.name x }
  | some .globals => .ok { vs with globals := vs.globals.insert v.name x }
  | some .script => .ok { vs with script := vs.script.insert v.name x }
  | some .arguments => .error (.readOnlyVariable v.text)
  | some .locals =>
    match vs.frame? with
    | some f => .ok (vs.setLocal f.locals v.name x)
    | none => .error (.illegalVariableName v.text)
  | some .buffer => .ok { vs with buffers := insertFor vs.buffers id v.name x }
  | some .window => .ok { vs with windows := insertFor vs.windows id v.name x }
  | some .tab => .ok { vs with tabs := insertFor vs.tabs id v.name x }
  | some .builtins =>
    if v.name ∈ assignableBuiltins then .ok (vs.setBuiltin v.name x)
    else .error (.readOnlyVariable v.text)

/-! ### Removing -/

/-- Removes a local variable of an invocation, and tells whether there was one. -/
def removeLocal (vs : Variables) (r : LocalsRef) (name : String) : Bool × Variables :=
  ((vs.localTable r).contains name, vs.setLocalTable r ((vs.localTable r).erase name))

/-- Removes a name from what is kept for an editor, and tells whether it was there. -/
def removeFor (m : PerEditor (Dict Value)) (id : EditorId) (name : String) :
    Bool × PerEditor (Dict Value) :=
  match m.get? id with
  | some d => (d.contains name, m.set id (d.erase name))
  | none => (false, m)

/-- Removes a variable, as an editor does it, and tells whether there was one. -/
def remove (vs : Variables) (v : VariableName) (id : EditorId) :
    Except EvalError (Bool × Variables) :=
  match v.scope with
  | none =>
    match vs.frame? with
    | some f => .ok (vs.removeLocal f.locals v.name)
    | none => .ok (vs.globals.contains v.name, { vs with globals := vs.globals.erase v.name })
  | some .globals =>
    .ok (vs.globals.contains v.name, { vs with globals := vs.globals.erase v.name })
  | some .script => .ok (vs.script.contains v.name, { vs with script := vs.script.erase v.name })
  | some .locals =>
    match vs.frame? with
    | some f => .ok (vs.removeLocal f.locals v.name)
    | none => .ok (false, vs)
  | some .buffer =>
    let (found, m) := removeFor vs.buffers id v.name
    .ok (found, { vs with buffers := m })
  | some .window =>
    let (found, m) := removeFor vs.windows id v.name
    .ok (found, { vs with windows := m })
  | some .tab =>
    let (found, m) := removeFor vs.tabs id v.name
    .ok (found, { vs with tabs := m })
  | some .arguments | some .builtins => .error (.readOnlyVariable v.text)

/-- Drops all variables of an editor. -/
def forget (vs : Variables) (id : EditorId) : Variables :=
  { vs with
    buffers := vs.buffers.remove id
    windows := vs.windows.remove id
    tabs := vs.tabs.remove id }

end Variables

end ModalScript
