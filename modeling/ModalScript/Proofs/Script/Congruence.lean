/-
Relations that evaluation respects.

Evaluating an expression fails, reads the state, creates containers and calls functions,
one after the other, and does nothing else.  A relation between computations that all this
respects is an `Interp.Congruence`, and then evaluating an expression respects it as well,
provided that the two callers do (`Congruence.evaluate`).  What is to be proved of all
evaluations, be it of one run or of two runs side by side, is thus proved of five parts.

Among the built-in functions there are two that do something else, and what these do is left
to whoever calls them: `call` calls, and `add` changes a list (`Congruence.run`).
-/
import ModalScript.Command.Run
import ModalScript.Proofs.Value.Growth

namespace ModalScript

/-- A call with one caller is related to the same call with another one. -/
def Caller.Related (R : {α : Type} → Interp α → Interp α → Prop) (call call' : Caller) : Prop :=
  ∀ name args site, R (call name args site) (call' name args site)

namespace Interp

/-- A relation that the parts of an evaluation respect, calls apart. -/
structure Congruence (R : {α : Type} → Interp α → Interp α → Prop) : Prop where
  value {α : Type} (a : α) : R (pure a) (pure a)
  failure {α : Type} (e : EvalError) : R (fail (.eval e) : Interp α) (fail (.eval e))
  reading {α : Type} (f : State → Except EvalError α) : R (readExcept f) (readExcept f)
  growing {α : Type} {m : Allocating α} : m.Grows → R (onHeap m) (onHeap m)
  sequence {α β : Type} {m m' : Interp α} {f f' : α → Interp β} :
    R m m' → (∀ a, R (f a) (f' a)) → R (m >>= f) (m' >>= f')

namespace Congruence

variable {R : {α : Type} → Interp α → Interp α → Prop} {call call' : Caller}

/-- A result that is there already is a value or a failure. -/
theorem ofExcept (hR : Congruence R) {α : Type} (r : Except EvalError α) :
    R (Interp.ofExcept r) (Interp.ofExcept r) := by
  cases r with
  | ok a => exact hR.value a
  | error e => exact hR.failure e

/-- A function of the result does not matter. -/
theorem map (hR : Congruence R) {α β : Type} {m m' : Interp α} (hm : R m m') (f : α → β) :
    R (f <$> m) (f <$> m') :=
  hR.sequence hm fun a => hR.value (f a)

/-- What cannot fail is read as what can. -/
theorem read (hR : Congruence R) {α : Type} (f : State → α) :
    R (Interp.read f) (Interp.read f) :=
  hR.reading fun s => .ok (f s)

/-- A value counts as true or false by itself. -/
theorem condition (hR : Congruence R) (v : Value) :
    R (Expr.condition v) (Expr.condition v) :=
  hR.ofExcept _

/-! ### Built-in functions -/

/-- A built-in function makes no calls, unless it is `call`, and only creates containers, unless
it is `add`. -/
theorem apply (hR : Congruence R) {b : Builtin}
    (hcall : b = .call → Caller.Related R call call')
    (hadd : b = .add → ∀ list item, R (onHeap (Builtin.addTo list item))
      (onHeap (Builtin.addTo list item))) (args : List Value) (site : CallSite) :
    R (b.apply call args site) (b.apply call' args site) := by
  cases b with
  | call =>
    -- the function and its arguments first, then the dictionary if there is one, and then the call
    refine hR.sequence (hR.ofExcept _) fun name => hR.sequence (hR.reading _) fun items => ?_
    simp only
    split
    · exact hR.sequence (hR.map (hR.ofExcept _) _) fun dict => hcall rfl _ _ _
    · exact hR.sequence (hR.value _) fun dict => hcall rfl _ _ _
  | add => exact hadd rfl _ _
  | type => exact hR.value _
  | copy => exact hR.growing (Value.grows_shallowCopy _)
  | deepcopy => exact hR.growing (Value.grows_deepCopy _)
  | keys => exact hR.growing (Builtin.grows_keyList _)
  | values => exact hR.growing (Builtin.grows_valueList _)
  | split => exact hR.growing (Builtin.grows_splitText _ _)
  | jsonDecode =>
    exact hR.growing ((Allocating.grows_lift _).bind fun text => Value.grows_decode text)
  | abs => exact hR.ofExcept _
  -- the others only look at the state
  | len | empty | string | get | hasKey | join | function | «exists» | line | getline
  | jsonEncode => exact hR.reading _

/-- With a wrong number of arguments a built-in function fails before anything else. -/
theorem run (hR : Congruence R) {b : Builtin}
    (hcall : b = .call → Caller.Related R call call')
    (hadd : b = .add → ∀ list item, R (onHeap (Builtin.addTo list item))
      (onHeap (Builtin.addTo list item))) (args : List Value) (site : CallSite) :
    R (b.run call args site) (b.run call' args site) := by
  unfold Builtin.run
  split
  · exact hR.apply hcall hadd args site
  · exact hR.failure _

/-! ### Expressions -/

mutual

/-- An expression is evaluated in related ways if calls are. -/
theorem evaluate (hR : Congruence R) (hcall : Caller.Related R call call') :
    ∀ e : Expr, R (e.evaluate call) (e.evaluate call')
  | .integer _ | .float _ | .string _ => by
    rw [Expr.evaluate, Expr.evaluate]
    exact hR.value _
  | .list items => by
    rw [Expr.evaluate, Expr.evaluate]
    exact hR.sequence (evaluateAll hR hcall items) fun vs =>
      hR.growing (Allocating.grows_newList vs)
  | .dict entries => by
    rw [Expr.evaluate, Expr.evaluate]
    exact hR.sequence (evaluateEntries hR hcall .empty entries) fun d =>
      hR.growing (Allocating.grows_newDict d)
  | .variable _ | .setting _ _ | .funcref _ => by
    rw [Expr.evaluate, Expr.evaluate]
    exact hR.reading _
  | .unary op operand => by
    rw [Expr.evaluate, Expr.evaluate]
    exact hR.sequence (evaluate hR hcall operand) fun v => hR.ofExcept _
  | .binary op left right => by
    have hleft := evaluate hR hcall left
    have hright := evaluate hR hcall right
    -- a second operand is evaluated to a truth value, if at all
    have htest : R (do return Value.bool (← Expr.condition (← right.evaluate call)))
        (do return Value.bool (← Expr.condition (← right.evaluate call'))) :=
      hR.sequence hright fun w => hR.sequence (hR.condition w) fun b => hR.value _
    cases op with
    | and =>
      rw [Expr.evaluate, Expr.evaluate]
      refine hR.sequence hleft fun v => hR.sequence (hR.condition v) fun b => ?_
      split
      · exact htest
      · exact hR.value _
    | or =>
      rw [Expr.evaluate, Expr.evaluate]
      refine hR.sequence hleft fun v => hR.sequence (hR.condition v) fun b => ?_
      split
      · exact hR.value _
      · exact htest
    -- the other operators evaluate both operands, the left one first
    | _ =>
      rw [Expr.evaluate, Expr.evaluate]
      · exact hR.sequence hleft fun v => hR.sequence hright fun w =>
          hR.growing (Value.grows_binary _ v w)
      all_goals
        intro hop
        cases hop
  | .conditional test whenTrue whenFalse => by
    rw [Expr.evaluate, Expr.evaluate]
    refine hR.sequence (evaluate hR hcall test) fun v =>
      hR.sequence (hR.condition v) fun b => ?_
    split
    · exact evaluate hR hcall whenTrue
    · exact evaluate hR hcall whenFalse
  | .index base place => by
    rw [Expr.evaluate, Expr.evaluate]
    exact hR.sequence (evaluate hR hcall base) fun v =>
      hR.sequence (evaluate hR hcall place) fun i => hR.reading _
  | .call name args => by
    rw [Expr.evaluate, Expr.evaluate]
    exact hR.sequence (evaluateAll hR hcall args) fun vs => hcall _ _ _
  | .method receiver key args => by
    rw [Expr.evaluate, Expr.evaluate]
    exact hR.sequence (evaluate hR hcall receiver) fun v =>
      hR.sequence (hR.ofExcept _) fun r => hR.sequence (hR.reading _) fun name =>
        hR.sequence (evaluateAll hR hcall args) fun vs => hcall _ _ _

/-- Expressions are evaluated one after the other. -/
theorem evaluateAll (hR : Congruence R) (hcall : Caller.Related R call call') :
    ∀ es : List Expr, R (Expr.evaluateAll call es) (Expr.evaluateAll call' es)
  | [] => by
    rw [Expr.evaluateAll, Expr.evaluateAll]
    exact hR.value _
  | e :: es => by
    rw [Expr.evaluateAll, Expr.evaluateAll]
    exact hR.sequence (evaluate hR hcall e) fun v =>
      hR.sequence (evaluateAll hR hcall es) fun vs => hR.value _

/-- So are the keys and the values of a dictionary, each value behind its key. -/
theorem evaluateEntries (hR : Congruence R) (hcall : Caller.Related R call call')
    (d : Dict Value) :
    ∀ es : List (Expr × Expr),
      R (Expr.evaluateEntries call d es) (Expr.evaluateEntries call' d es)
  | [] => by
    rw [Expr.evaluateEntries, Expr.evaluateEntries]
    exact hR.value _
  | (k, e) :: es => by
    rw [Expr.evaluateEntries, Expr.evaluateEntries]
    exact hR.sequence (evaluate hR hcall k) fun key => hR.sequence (hR.ofExcept _) fun text =>
      hR.sequence (evaluate hR hcall e) fun v => evaluateEntries hR hcall _ es

end

/-! ### Commands made of expressions -/

/-- The new value of an assignment depends on the old one, unless it is a plain assignment. -/
theorem combine (hR : Congruence R) (op : LetOperator) {old old' : Interp Value} (new : Value)
    (hold : R old old') : R (Command.combine op old new) (Command.combine op old' new) := by
  unfold Command.combine
  split
  · exact hR.value _
  · exact hR.sequence hold fun v => hR.growing (Value.grows_binary _ v new)

/-- The texts that are shown are those of values. -/
theorem echoParts (hR : Congruence R) (hcall : Caller.Related R call call')
    (es : List Expr) : R (Command.echoParts call es) (Command.echoParts call' es) := by
  induction es with
  | nil => exact hR.value _
  | cons e es ih =>
    exact hR.sequence (hR.evaluate hcall e) fun v => hR.sequence (hR.read _) fun part =>
      hR.sequence ih fun parts => hR.value _

end Congruence

end Interp

end ModalScript
