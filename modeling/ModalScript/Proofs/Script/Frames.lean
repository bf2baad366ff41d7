/-
The stack of frames.

Whatever runs leaves the stack of frames as it was: the same functions with the same
arguments and the same local and captured variables, and this for every outcome
(`frames_run`).  An invocation may bind arguments in its own frame, so what an effect
preserves in that layer is the stack below the innermost frame (`Layer.outer`); the frame
itself is gone when the call is over.
-/
import ModalScript.Proofs.Script.Confined
import ModalScript.Proofs.Script.Variables

namespace ModalScript

/-- The running functions, the innermost one first. -/
def State.frames (s : State) : List Frame :=
  s.session.vars.frames

/-- The frames that are not to be touched in a layer. -/
def Layer.outer (l : Layer) (frames : List Frame) : List Frame :=
  match l with
  | .expression | .statement => frames
  | .invocation => frames.tail

/-- Every effect leaves the outer frames alone. -/
theorem Effect.outer_frames {l : Layer} {s t : State} (h : Effect l s t) :
    l.outer t.frames = l.outer s.frames := by
  induction h with
  | refl => rfl
  | trans _ _ ih ih' => exact ih'.trans ih
  | statement _ ih => exact ih
  | invocation _ ih => exact congrArg List.tail ih
  | @call s t f name _ _ _ ih =>
    -- the invocation has left everything below the frame that was pushed
    show t.frames.tail = s.frames
    exact ih
  | store h => exact (Variables.localChange_store h).1
  | remove h => exact (Variables.localChange_remove h).1
  | bindArgument s name x =>
    show (s.frames.modifyHead (Frame.bind name x)).tail = s.frames.tail
    cases s.frames <;> rfl
  | heap | settings | define | deleteFunction | echo | reportError | goTo | deleteLines => rfl

namespace Interp

variable {α : Type} {m : Interp α}

theorem Confined.frames_eq (h : m.Confined .statement) (s : State) : (m s).2.frames = s.frames :=
  (h s).outer_frames

end Interp

/-- **Frame-stack discipline.**  After an expression, a statement, a block, the body of a
function, a call or a whole script, the frames are those from before, however it ended. -/
theorem frames_run (n fuel : Nat) (s : State) :
    (∀ e : Expr, (e.evaluate (callFunction n) s).2.frames = s.frames) ∧
    (∀ st : Statement, (st.execute (callFunction n) fuel s).2.frames = s.frames) ∧
    (∀ sts, (Statement.executeBlock (callFunction n) fuel sts s).2.frames = s.frames) ∧
    (∀ policy body ds,
      (runBody (callFunction n) fuel policy body ds s).2.frames = s.frames) ∧
    (∀ name args site, (callFunction n name args site s).2.frames = s.frames) ∧
    (∀ script, (runScript n script s).2.frames = s.frames) := by
  have hcall := confined_callFunction n
  refine ⟨fun e => ?_, fun st => ?_, fun sts => ?_, fun policy body ds => ?_,
    fun name args site => ?_, fun script => ?_⟩
  · exact (Expr.confined_evaluate hcall e).statement.frames_eq s
  · exact (Statement.confined_execute hcall fuel st).frames_eq s
  · exact (Statement.confined_executeBlock hcall fuel sts).frames_eq s
  · exact (effect_runBody hcall fuel policy body ds s).outer_frames
  · exact (hcall name args site).statement.frames_eq s
  · exact (confined_runScript n script).frames_eq s

end ModalScript
