/-
What becomes of the text and of the lists in a run.

Nearly all that a script does leaves the text of the buffer and the lists in existence alone:
it changes variables, settings, functions and messages, moves the cursor, and creates new
containers.  There are three exceptions, namely the command that deletes lines, the assignment
of an element, and the built-in function `add`.

A `Course` is a lasting relation between states that asks for no more than that the text and
the lists are the same.  Calls are within a course if it allows the three exceptions
(`Course.callFunction`), and else they are so where those which it does not allow are not made,
which is asked by leading these away (`guarded`, `Course.guarded`).  What is to be proved of all
runs about the text or about a list is thus proved of the three exceptions.
-/
import ModalScript.Proofs.Script.Detour
import ModalScript.Proofs.Script.Points
import ModalScript.Proofs.Script.Preparing

namespace ModalScript

/-! ### Courses -/

/-- A lasting relation that holds of every step which leaves alone the text and all lists that
exist. -/
structure Course (E : State → State → Prop) : Prop extends Lasting E where
  apart {s t : State} : t.editor.buffer = s.editor.buffer →
    (∀ r, s.session.heap.HasList r →
      t.session.heap.HasList r ∧ t.session.heap.items r = s.session.heap.items r) → E s t

/-- All calls are within the relation. -/
def Caller.Within (E : State → State → Prop) (call : Caller) : Prop :=
  call.Related (fun m _ => m.Within E) call

namespace Course

variable {E : State → State → Prop} {α : Type} {s t : State}

/-- The heap is the same. -/
theorem aside (hE : Course E) (hbuffer : t.editor.buffer = s.editor.buffer)
    (hheap : t.session.heap = s.session.heap) : E s t :=
  hE.apart hbuffer fun r hr => by
    rw [hheap]
    exact ⟨hr, rfl⟩

/-- The heap has grown. -/
theorem grown (hE : Course E) {heap : Heap} (h : s.session.heap.Grown heap) :
    E s { s with session := { s.session with heap } } :=
  hE.apart rfl fun r hr => ⟨h.has (.list r) hr, h.same (.list r) hr⟩

/-- A change of the session that keeps the heap is within every course. -/
theorem changeSession (hE : Course E) {f : Session → Session} (hf : ∀ s, (f s).heap = s.heap) :
    (Interp.changeSession f).Within E :=
  fun s => hE.aside rfl (hf s.session)

/-- So is a computation that only creates containers. -/
theorem onHeap (hE : Course E) {m : Allocating α} (hm : m.Grows) : (Interp.onHeap m).Within E := by
  intro s
  unfold Interp.onHeap
  rcases hr : m s.session.heap with e | ⟨a, heap⟩
  · exact hE.refl s
  · exact hE.grown (hm _ _ _ hr)

/-- So is any change of settings. -/
theorem configure (hE : Course E) (m : Configure α) : (Interp.configure m).Within E := by
  intro s
  unfold Interp.configure
  rcases m s.session.settings with ⟨r, settings⟩
  cases r with
  | ok a => exact hE.aside rfl rfl
  | error e => exact hE.aside rfl rfl

/-- So is any change of variables. -/
theorem onVariables (hE : Course E)
    (f : Variables → EditorId → Except EvalError (α × Variables)) :
    (Interp.onVariables f).Within E := by
  intro s
  unfold Interp.onVariables
  rcases f s.session.vars s.editor.id with e | ⟨a, vars⟩
  · exact hE.refl s
  · exact hE.aside rfl rfl

/-- What evaluation consists of is within every course. -/
theorem congruence (hE : Course E) : Interp.Congruence fun m _ => m.Within E where
  value := hE.pure
  failure _ := hE.fail _
  reading := hE.readExcept
  growing := hE.onHeap
  sequence := hE.bind

end Course

/-! ### Commands -/

/-- What the course has to allow for the sake of a command that is run in a state: to delete
lines, or to assign elements of the list that the command means. -/
structure Command.Allowed (E : State → State → Prop) (call : Caller) (c : Command) (s : State) :
    Prop where
  deleting {line : CommandLine} : c = .text .delete line →
    ∀ first last, E s { s with editor := s.editor.deleteLines first last }
  assigning {base place : Expr} {op : LetOperator} {value : Expr} {v : Value} {r : ListRef}
    {s₁ s₂ : State} : c = .assign (.index base place) op value →
    value.evaluate call s = (.value v, s₁) → base.evaluate call s₁ = (.value (.list r), s₂) →
    ∀ (t : State) i w, E t { t with session := { t.session with
      heap := t.session.heap.setItems r ((t.session.heap.items r).set i w) } }

namespace Course

section Commands

variable {E : State → State → Prop} {call : Caller}

theorem combine (hE : Course E) (op : LetOperator) {old : Interp Value} (new : Value)
    (hold : old.Within E) : (Command.combine op old new).Within E :=
  @Interp.Congruence.combine _ hE.congruence op old old new hold

/-- An entry of a dictionary concerns no list, so that only elements of lists are to be
allowed. -/
theorem assignElement (hE : Course E) {container : Value}
    (hassign : ∀ r, container = .list r → ∀ (t : State) i w, E t { t with
      session := { t.session with
        heap := t.session.heap.setItems r ((t.session.heap.items r).set i w) } })
    (op : LetOperator) (key new : Value) :
    (Command.assignElement op container key new).Within E := by
  have hvalue : (Command.combine op (Command.elementOf container key) new).Within E :=
    hE.combine op new (hE.readExcept _)
  cases container with
  | list r =>
    exact hE.bind (hE.ofExcept _) fun i => hE.bind (hE.readExcept _) fun slot =>
      hE.bind hvalue fun v t => hassign r rfl t _ v
  | dict r =>
    exact hE.bind (hE.ofExcept _) fun name => hE.bind hvalue fun v t =>
      hE.apart rfl fun q hq => ⟨hq, rfl⟩
  | _ => exact hE.fail _

/-- An assignment is within a course if it may assign the elements it means to assign. -/
theorem assign (hE : Course E) (hcall : call.Within E) {target : LetTarget} {op : LetOperator}
    {value : Expr} {s : State} (hc : Command.Allowed E call (.assign target op value) s) :
    E s (Command.process call (.assign target op value) s).2 := by
  refine hE.bind_at (hE.congruence.evaluate hcall value s) fun new s₁ hnew => ?_
  -- only the element of a container is a matter of the heap
  cases target with
  | «variable» v =>
    exact hE.bind (hE.combine op new (hE.readExcept _)) (fun x => hE.onVariables _) s₁
  | index base place =>
    refine hE.bind_at (hE.congruence.evaluate hcall base s₁) fun container s₂ hcontainer => ?_
    refine hE.bind (hE.congruence.evaluate hcall place) (fun key => ?_) s₂
    refine hE.assignElement (fun r hr => ?_) op key new
    rw [hr] at hcontainer
    exact hc.assigning rfl hnew hcontainer
  | setting access name =>
    exact hE.bind (hE.combine op new (hE.readExcept _)) (fun x =>
      hE.bind (hE.read _) fun scope => hE.bind (hE.read _) fun heap => hE.configure _) s₁

theorem echoValues (hE : Course E) (hcall : call.Within E) (isError : Bool) (es : List Expr) :
    (Command.echoValues call isError es).Within E := by
  refine hE.bind (hE.congruence.echoParts hcall es) fun parts => ?_
  simp only
  split
  · exact hE.fail _
  · exact hE.changeSession fun _ => rfl

/-- Showing texts keeps the heap. -/
theorem heap_foldl_echo (texts : List String) (s : Session) :
    (texts.foldl Session.echo s).heap = s.heap := by
  induction texts generalizing s with
  | nil => rfl
  | cons text texts ih => exact ih (s.echo text)

theorem deleteFunction (hE : Course E) (line : CommandLine) :
    (Command.deleteFunction line).Within E := by
  intro s
  simp only [Command.deleteFunction]
  split
  · exact hE.aside rfl rfl
  · split
    · exact hE.refl s
    · exact hE.refl s

theorem removeVariables (hE : Course E) (line : CommandLine) :
    (Command.removeVariables line).Within E := by
  refine hE.forM fun name _ => hE.bind (hE.onVariables _) fun found => ?_
  split
  · exact hE.pure _
  · exact hE.fail _

/-- A command that the course allows is in accordance with it, whatever functions are called. -/
theorem command (hE : Course E) (hcall : call.Within E) {c : Command} {s : State}
    (hc : c.Allowed E call s) : c.Obeys call E s := by
  have hprocess : E s (c.process call s).2 := by
    cases c with
    | assign target op value => exact hE.assign hcall hc
    | echo isError values => exact hE.echoValues hcall isError values s
    | call range name args =>
      exact hE.bind (hE.congruence.evaluateAll hcall args)
        (fun vs => hE.bind (hcall name vs _) fun _ => hE.pure _) s
    | text tc line =>
      cases tc with
      | delete =>
        simp only [Command.process, Command.deleteLines]
        -- the lines to be deleted may not have been understood
        split
        · exact hE.refl s
        · exact hc.deleting rfl _ _
      | deleteFunction => exact hE.deleteFunction line s
      | print => exact hE.aside rfl (heap_foldl_echo _ _)
      | set kind => exact hE.aside rfl (heap_foldl_echo _ _)
      | unlet => exact hE.removeVariables line s
  unfold Command.Obeys Command.execute
  split
  · exact hprocess
  · exact hE.refl s

end Commands

end Course

/-! ### Calls -/

namespace Course

section Calls

variable {E : State → State → Prop} {call : Caller}

/-- Functions have nothing to do with the text and with lists. -/
theorem defineFunction (hE : Course E) (signature : Signature) (body : List Statement) :
    (ModalScript.defineFunction signature body).Within E := by
  intro s
  simp only [ModalScript.defineFunction]
  split
  · exact hE.aside rfl rfl
  · exact hE.refl s

/-- Nor has the place of the cursor. -/
theorem follow (hE : Course E) (s : State) (moves : Bool) (line : Nat) :
    E s (s.follow moves line) := by
  unfold State.follow
  split
  · exact hE.aside rfl rfl
  · exact hE.refl s

/-- Only the commands of statements are left to be allowed. -/
theorem carries (hE : Course E) (hcall : call.Within E) : Carries call E where
  toLasting := hE.toLasting
  evaluate := hE.congruence.evaluate hcall
  store _ _ := hE.onVariables _
  define := hE.defineFunction
  follow := hE.follow

/-- What comes before a body is within every course. -/
theorem preparing (hE : Course E) : Interp.Preparing fun m _ => m.Within E where
  toCongruence := hE.congruence
  binding _ _ := hE.changeSession fun _ => rfl
  storing _ _ := hE.onVariables _

theorem reportLast (hE : Course E) (ds : Diagnostics) :
    (ModalScript.reportLast ds).Within E := by
  refine hE.changeSession fun s => ?_
  cases ds.last <;> rfl

/-- An invocation is in accordance with the course, if it allows the commands to which the body
of the function comes. -/
theorem runInvocation (hE : Course E) (hcall : call.Within E) {fuel : Nat} {f : Function}
    {args : List Value} {dict : Option DictRef} {span : LineSpan} {s : State}
    (hf : ∀ u c t, ModalScript.prepare call f args dict span.range s = (.value (), u) →
      f.Comes call fuel Anything span u (.command c) t → c.Allowed E call t) :
    E s (ModalScript.runInvocation call fuel f args dict span s).2 := by
  rw [runInvocation_eq]
  refine hE.bind_at (hE.preparing.prepare hcall f args dict span.range s) fun _ u hu => ?_
  -- behind the runs there is only the report of a problem
  refine hE.bind_at ?_ fun r t _ => hE.bind (hE.reportLast r.2) (fun _ => hE.pure _) t
  exact (hE.carries hcall).runLines (fun c t hc => hE.command hcall (hf u c t hu hc)) none {}

end Calls

end Course

/-! ### Requests -/

/-- A request for a user-defined function, whose body comes to a command in a state. -/
def Request.Comes (call : Caller) (fuel : Nat) (r : Request) (s : State) (c : Command)
    (t : State) : Prop :=
  ∃ f u, Callee.ofName s r.name = .user f ∧
    let span := LineSpan.ofCall f.function.signature.flags r.site.range s.currentLine
    prepare call f.function r.args r.site.dict span.range (s.enter f) = (.value (), u) ∧
      f.function.Comes call fuel Anything span u (.command c) t

/-- What the course has to allow for the sake of a call: the commands to which the body of the
function comes, or the addition of an element to a list. -/
structure Request.Allowed (E : State → State → Prop) (call : Caller) (fuel : Nat) (r : Request)
    (s : State) : Prop where
  body {c : Command} {t : State} : r.Comes call fuel s c t → c.Allowed E call t
  adding {list item : Value} : Callee.ofName s r.name = .builtin .add → r.args = [list, item] →
    E s (Interp.onHeap (Builtin.addTo list item) s).2

/-- Calls functions as `callFunction` does, but leaves the calls for which `G` holds to `p`,
which is told the fuel.  It may be asked what is called inside of such a call. -/
noncomputable def guarded (G : Caller → Nat → Request → State → Prop) (p : Nat → Caller) :
    Nat → Caller
  | 0 => fun _ _ _ => .exhausted
  | n + 1 => fun name args site s =>
    open Classical in
    if G (guarded G p n) n ⟨name, args, site⟩ s then p (n + 1) name args site s
    else callStep (guarded G p n) n name args site s

/-- A detour is a guard that does not ask what happens inside of a call. -/
theorem guarded_eq_diverted (B : Request → State → Bool) (p : Nat → Caller) (n : Nat) :
    guarded (fun _ _ r s => B r s = true) p n = diverted B p n := by
  induction n with
  | zero => rfl
  | succ n ih =>
    funext name args site s
    simp only [guarded, diverted, ih]

namespace Course

variable {E : State → State → Prop} {call : Caller}

/-- An invocation is within a course that allows the commands of the body. -/
theorem invoke (hE : Course E) (hcall : call.Within E) {fuel : Nat} {r : Request} {s : State}
    {f : DefinedFunction} (hf : Callee.ofName s r.name = .user f)
    (hr : r.Allowed E call fuel s) : E s (ModalScript.invoke call fuel f r.args r.site s).2 := by
  cases hcheck : checkCall s f.function.signature r.args r.site with
  | error e =>
    rw [invoke_of_refused hcheck]
    exact hE.refl s
  | ok =>
    rw [invoke_of_accepted hcheck]
    -- the frame is pushed before the run and popped behind it
    have hentered : E s (s.enter f) := hE.aside rfl rfl
    have hrun := hE.runInvocation hcall fun u c t hu hc => hr.body ⟨f, u, hf, hu, hc⟩
    exact hE.trans (hE.trans hentered hrun) (hE.aside rfl rfl)

/-- A call that the course allows is in accordance with it. -/
theorem callStep (hE : Course E) (hcall : call.Within E) {fuel : Nat} {r : Request} {s : State}
    (hr : r.Allowed E call fuel s) : E s (r.make (ModalScript.callStep call fuel) s).2 := by
  show E s ((Callee.ofName s r.name).enter call fuel r.name r.args r.site s).2
  cases hcallee : Callee.ofName s r.name with
  | user f => exact hE.invoke hcall hcallee hr
  | builtin b =>
    by_cases hb : b = .add
    · subst hb
      obtain ⟨name, args, site⟩ := r
      show E s (Builtin.run call .add args site s).2
      -- `add` has two arguments
      rcases args with - | ⟨list, - | ⟨item, - | ⟨v, vs⟩⟩⟩
      · exact hE.refl s
      · exact hE.refl s
      · exact hr.adding hcallee rfl
      · -- more than two arguments are refused
        have hleast : ¬ vs.length + 3 < 2 := by omega
        have hrefused : checkArity Builtin.add.name Builtin.add.arity.1 (some Builtin.add.arity.2)
            (list :: item :: v :: vs).length =
              .error (.tooMany "add" 2 (list :: item :: v :: vs).length) :=
          (if_neg hleast).trans (if_pos (Nat.le_add_left 3 vs.length))
        unfold Builtin.run
        rw [hrefused]
        exact hE.refl s
    · exact hE.congruence.run (fun _ => hcall) (fun hadd => absurd hadd hb) r.args r.site s
  | reference target => exact hcall target r.args r.site s
  | unknown => exact hE.refl s

/-- Where the calls that the course does not allow are not made, all calls are within it. -/
theorem guarded (hE : Course E) {G : Caller → Nat → Request → State → Prop}
    (hG : ∀ call fuel r s, ¬ G call fuel r s → r.Allowed E call fuel s) (n : Nat) :
    (ModalScript.guarded G (fun _ _ _ _ => .exhausted) n).Within E := by
  induction n with
  | zero => exact fun _ _ _ => hE.exhausted
  | succ n ih =>
    intro name args site s
    unfold ModalScript.guarded
    split
    · exact hE.refl s
    · next hr => exact hE.callStep ih (hG _ _ _ _ hr)

/-- If the course allows all calls, then they are within it. -/
theorem callFunction (hE : Course E)
    (hallowed : ∀ call fuel r s, Request.Allowed E call fuel r s) (n : Nat) :
    (ModalScript.callFunction n).Within E := by
  induction n with
  | zero => exact fun _ _ _ => hE.exhausted
  | succ n ih => exact fun name args site s => hE.callStep ih (hallowed _ _ ⟨name, args, site⟩ s)

end Course

end ModalScript
