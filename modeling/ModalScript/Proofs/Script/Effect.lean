/-
What running a script may do to the state.

`Effect l s t` says that the state may turn from `s` into `t` while something runs.  The
layer `l` tells what that is: an expression changes the heap and calls functions, a
statement also changes variables, settings, functions and the editor, and an invocation,
which runs in a frame of its own, also binds arguments in that frame.  A call is one effect
of an expression: a frame is pushed, an invocation runs, and the frame is popped.  What is
done to the heap is left open.

A computation is `Confined` to a layer if it has no other effects, whatever its outcome is.
That all parts of the interpreter are confined is proved beside this in the order of their
definitions; an invariant of all runs is then an induction on `Effect`, with one case for
each thing that can happen.
-/
import ModalScript.Proofs.Script.Lasting
import ModalScript.Proofs.Setting.Command

namespace ModalScript

/-- An expression reads a setting at one of the two scopes that an editor has. -/
theorem SettingAccess.scope_eq_or (access : SettingAccess) (id : EditorId) :
    access.scope id = .shared ∨ access.scope id = .editor id := by
  cases access with
  | effective | own => exact Or.inr rfl
  | shared => exact Or.inl rfl

namespace State

/-- The state in which a function has got its frame. -/
def enter (s : State) (f : DefinedFunction) : State :=
  { s with
    session := { s.session with
      vars := s.session.vars.push f.function.signature.qualifiedName f.captured } }

/-- The state in which the innermost frame is gone. -/
def leave (s : State) : State :=
  { s with session := { s.session with vars := s.session.vars.pop } }

end State

/-- What runs. -/
inductive Layer where
  | expression
  | statement
  /-- The binding of arguments and the body of a function, in its frame. -/
  | invocation

/-- What may happen to the state. -/
inductive Effect : Layer → State → State → Prop
  | refl (l : Layer) (s : State) : Effect l s s
  | trans {l : Layer} {s t u : State} : Effect l s t → Effect l t u → Effect l s u
  | statement {s t : State} : Effect .expression s t → Effect .statement s t
  | invocation {s t : State} : Effect .statement s t → Effect .invocation s t
  | heap (s : State) (heap : Heap) :
      Effect .expression s { s with session := { s.session with heap } }
  | call {s t : State} {f : DefinedFunction} (name : String) :
      s.session.functions.get? name = some f →
      s.session.vars.depth < s.session.maxCallDepth →
      Effect .invocation (s.enter f) t →
      Effect .expression s t.leave
  | store {s : State} {v : VariableName} {x : Value} {vars : Variables} :
      s.session.vars.store v x s.editor.id = .ok vars →
      Effect .statement s { s with session := { s.session with vars } }
  | remove {s : State} {v : VariableName} {found : Bool} {vars : Variables} :
      s.session.vars.remove v s.editor.id = .ok (found, vars) →
      Effect .statement s { s with session := { s.session with vars } }
  | settings {s : State} {settings : Settings} :
      s.session.settings.Rewritten s.editor.id settings →
      Effect .statement s { s with session := { s.session with settings } }
  | define {s : State} {signature : Signature} {captured : Option LocalsRef}
      {functions : Functions} (body : List Statement) :
      capturedBy s.session signature = .ok captured →
      s.session.functions.define ⟨⟨signature, body⟩, captured⟩ = .ok functions →
      Effect .statement s { s with session := { s.session with functions } }
  | deleteFunction (s : State) (name : String) :
      Effect .statement s
        { s with session := { s.session with functions := (s.session.functions.remove name).2 } }
  | echo (s : State) (text : String) :
      Effect .statement s { s with session := s.session.echo text }
  | reportError (s : State) (text : String) :
      Effect .statement s { s with session := s.session.reportError text }
  | goTo (s : State) (line : Nat) :
      Effect .statement s { s with editor := s.editor.goTo line }
  | deleteLines (s : State) (first last : Nat) :
      Effect .statement s { s with editor := s.editor.deleteLines first last }
  | bindArgument (s : State) (name : String) (x : Value) :
      Effect .invocation s
        { s with session := { s.session with vars := s.session.vars.bindArgument name x } }

/-! ### Confined computations -/

namespace Interp

variable {α β : Type} {l : Layer} {m : Interp α}

/-- Whatever its outcome is, the computation does only what its layer allows. -/
def Confined (l : Layer) (m : Interp α) : Prop :=
  ∀ s, Effect l s (m s).2

/-- What expressions do, statements may do too. -/
theorem Confined.statement (h : m.Confined .expression) : m.Confined .statement :=
  fun s => .statement (h s)

/-- What statements do, an invocation may do too, while it has a frame of its own. -/
theorem Confined.invocation (h : m.Confined .statement) : m.Confined .invocation :=
  fun s => .invocation (h s)

/-! Computations that only look at the state, and computations one after the other -/

/-- Effects are kept up by whatever computations are made of. -/
theorem lasting_effect (l : Layer) : Lasting (Effect l) where
  refl := .refl l
  trans := .trans

theorem confined_pure (a : α) : Confined l (pure a : Interp α) :=
  (lasting_effect l).pure a

theorem confined_fail (e : ExecError) : Confined l (fail e : Interp α) :=
  (lasting_effect l).fail e

theorem confined_exhausted : Confined l (exhausted : Interp α) :=
  (lasting_effect l).exhausted

theorem confined_ofExcept (r : Except EvalError α) : (ofExcept r).Confined l :=
  (lasting_effect l).ofExcept r

theorem confined_readExcept (f : State → Except EvalError α) : (readExcept f).Confined l :=
  (lasting_effect l).readExcept f

/-- One computation after another does what both of them do. -/
theorem Confined.bind {f : α → Interp β} (hm : m.Confined l) (hf : ∀ a, (f a).Confined l) :
    (m >>= f).Confined l :=
  (lasting_effect l).bind hm hf

theorem Confined.forM {as : List α} {f : α → Interp Unit} (h : ∀ a ∈ as, (f a).Confined l) :
    (as.forM f).Confined l :=
  (lasting_effect l).forM h

/-! Computations on one part of the state -/

/-- The heap may be changed in any way. -/
theorem confined_onHeap (m : Allocating α) : (onHeap m).Confined .expression := by
  intro s
  unfold onHeap
  rcases m s.session.heap with e | ⟨a, heap⟩
  · exact .refl _ s
  · exact .heap s heap

/-- A change of variables has the effect that is shown for the variables alone; where it fails,
nothing has changed. -/
theorem confined_onVariables {f : Variables → EditorId → Except EvalError (α × Variables)}
    (hf : ∀ s a vars, f s.session.vars s.editor.id = .ok (a, vars) →
      Effect l s { s with session := { s.session with vars } }) : (onVariables f).Confined l := by
  intro s
  unfold onVariables
  rcases h : f s.session.vars s.editor.id with e | ⟨a, vars⟩
  · -- what fails leaves the variables as they were
    exact .refl l s
  · exact hf s a vars h

/-- Storing a variable is an effect of a statement. -/
theorem confined_store (v : VariableName) (x : Value) : (store v x).Confined .statement := by
  refine confined_onVariables fun s a vars h => ?_
  cases hstore : s.session.vars.store v x s.editor.id with
  | error e => simp [hstore, Except.map] at h
  | ok vars' =>
    -- the variables that are left are the ones that have been stored to
    simp only [hstore, Except.map, Except.ok.injEq, Prod.mk.injEq, true_and] at h
    rw [← h]
    exact .store hstore

theorem confined_remove (v : VariableName) :
    (onVariables fun vs id => vs.remove v id).Confined .statement :=
  confined_onVariables fun _ _ _ h => .remove h

/-- A change of settings is an effect of a statement as far as it is made by writes, and these stay
even if the last one has failed. -/
theorem effect_configure {m : Configure α} {s : State}
    (h : s.session.settings.Rewritten s.editor.id (m s.session.settings).2) :
    Effect .statement s (configure m s).2 := by
  unfold configure
  rcases hm : m s.session.settings with ⟨r, settings⟩
  rw [hm] at h
  -- the settings are kept in both cases
  cases r with
  | ok a => exact .settings h
  | error e => exact .settings h

/-- Only an invocation binds arguments. -/
theorem confined_bindArgument (name : String) (x : Value) :
    (Interp.bindArgument name x).Confined .invocation :=
  fun s => .bindArgument s name x

end Interp

end ModalScript
