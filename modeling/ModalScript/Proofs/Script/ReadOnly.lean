/-
Which commands leave the text of the buffer alone.

A command that is marked as `readOnly` does not change the text by itself.  But assignments
and messages evaluate expressions, these call functions, and the body of a function may hold
a `delete` command, so that the mark says nothing about what is called.  A computation
`KeepsText` if the buffer is the same afterwards, whatever its outcome is.  `Statement.deletes`
looks for `delete` commands in the syntax.  That the text is the same is a `Course`, which allows
all commands but these, and so calls keep the text as long as no function with such a body is
called, which is asked by a detour round these calls.

Main result: a command that is marked as `readOnly` leaves the buffer as it is, provided that
it makes no call of a function that deletes lines (`Command.keepsText_of_readOnly`).  Without
this it need not: `Command.not_keepsText_of_echo`.
-/
import ModalScript.Proofs.Script.Course

namespace ModalScript

/-- The buffer is the same afterwards. -/
def Interp.KeepsText {α : Type} (m : Interp α) : Prop :=
  ∀ s, (m s).2.editor.buffer = s.editor.buffer

/-! ### The syntax of deletion -/

/-- Whether a command deletes lines itself. -/
def Command.deletes : Command → Bool
  | .text .delete _ => true
  | _ => false

/-- Of the commands that are marked so none deletes lines itself. -/
theorem Command.deletes_eq_false_of_readOnly {c : Command}
    (h : c.descriptor.access = .readOnly) : c.deletes = false := by
  cases c with
  | text tc line =>
    cases tc with
    | delete => cases h
    | _ => rfl
  | _ => rfl

namespace Statement

mutual

/-- Whether there is a `delete` command in the statement.  The body of a function that it
defines is not run, and does not count. -/
def deletes : Statement → Bool
  | .command c => c.deletes
  | .branch cases otherwise => deletesCases cases || deletesBlock otherwise
  | .whileLoop _ body => deletesBlock body
  | .forLoop _ _ body => deletesBlock body
  | _ => false

/-- Whether there is a `delete` command in the statements. -/
def deletesBlock : List Statement → Bool
  | [] => false
  | st :: sts => deletes st || deletesBlock sts

/-- Whether there is a `delete` command in the blocks. -/
def deletesCases : List (Expr × List Statement) → Bool
  | [] => false
  | (_, block) :: cases => deletesBlock block || deletesCases cases

end

end Statement

/-- Whether a request is for a function with a `delete` command in its body. -/
def Request.deletes (r : Request) (t : State) : Bool :=
  match Callee.ofName t r.name with
  | .user f => Statement.deletesBlock f.function.body
  | _ => false

/-- No call changes the buffer. -/
def Caller.KeepsText (call : Caller) : Prop :=
  call.Related (fun m _ => m.KeepsText) call

/-! ### The text as a course -/

/-- Where no block has such a command, none of them has. -/
theorem Statement.deletesBlock_of_mem {test : Expr} {block : List Statement}
    {cases : List (Expr × List Statement)} (hmem : (test, block) ∈ cases)
    (hcases : deletesCases cases = false) : deletesBlock block = false := by
  induction cases with
  | nil => cases hmem
  | cons p cases ih =>
    obtain ⟨test', block'⟩ := p
    rw [deletesCases, Bool.or_eq_false_iff] at hcases
    rcases List.mem_cons.mp hmem with heq | hmem
    · cases heq
      exact hcases.1
    · exact ih hmem hcases.2

section Runs

variable {call : Caller} {fuel : Nat} {fine : Mode → List Statement → State → Prop} {s t : State}
  {st : Statement}

/-- A run of statements comes to a command that deletes lines only if there is one. -/
theorem Comes.deletes_eq_false {mode : Mode} {sts : List Statement}
    (h : Comes call fuel fine mode sts s st t) (hsts : Statement.deletesBlock sts = false) :
    st.deletes = false := by
  induction h with
  | here =>
    rw [Statement.deletesBlock, Bool.or_eq_false_iff] at hsts
    exact hsts.1
  | next _ _ _ _ ih =>
    rw [Statement.deletesBlock, Bool.or_eq_false_iff] at hsts
    exact ih hsts.2
  -- the block that was chosen is one of those in the syntax
  | branch hblock _ ih =>
    rw [Statement.deletesBlock, Statement.deletes, Bool.or_eq_false_iff,
      Bool.or_eq_false_iff] at hsts
    rcases mem_of_chosenBlock hblock with rfl | ⟨test, hmem⟩
    · exact ih hsts.1.2
    · exact ih (Statement.deletesBlock_of_mem hmem hsts.1.1)
  | whileLoop _ _ ih | forLoop _ _ _ _ ih =>
    rw [Statement.deletesBlock, Statement.deletes, Bool.or_eq_false_iff] at hsts
    exact ih hsts.1

theorem LinesCome.deletes_eq_false {policy : BodyPolicy} {moves : Bool} {body : List Statement}
    {count line : Nat} (h : LinesCome call fuel fine policy moves body count line s st t)
    (hbody : Statement.deletesBlock body = false) : st.deletes = false := by
  induction h with
  | inside h => exact h.deletes_eq_false hbody
  | next _ _ _ ih => exact ih

end Runs

/-- The text stays the same as long as nothing deletes lines. -/
theorem course_text : Course fun s t => t.editor.buffer = s.editor.buffer where
  refl _ := rfl
  trans h h' := h'.trans h
  apart h _ := h

/-- Of all commands only this one is not allowed. -/
theorem Command.allowed_of_deletes {c : Command} (hc : c.deletes = false) (call : Caller)
    (s : State) : c.Allowed (fun s t => t.editor.buffer = s.editor.buffer) call s where
  deleting := by
    rintro line rfl
    cases hc
  assigning _ _ _ _ _ _ := rfl

/-- A request is allowed where the body that it runs holds no such command. -/
theorem Request.allowed_of_deletes {call : Caller} {fuel : Nat} {r : Request} {s : State}
    (hr : r.deletes s = false) :
    r.Allowed (fun s t => t.editor.buffer = s.editor.buffer) call fuel s where
  body {c t} h := by
    -- a command that the body comes to is one of its syntax
    obtain ⟨f, u, hf, -, hcomes⟩ := h
    unfold Request.deletes at hr
    simp only [hf] at hr
    have hc := hcomes.deletes_eq_false hr
    rw [Statement.deletes] at hc
    exact Command.allowed_of_deletes hc call t
  adding {list item} _ _ := by
    -- adding to a list changes the heap alone
    unfold Interp.onHeap
    rcases Builtin.addTo list item s.session.heap with e | ⟨v, heap⟩
    · rfl
    · rfl

/-- Apart from calls, only the command that deletes lines changes the text. -/
theorem Command.keepsText_execute {call : Caller} (hcall : call.KeepsText) {c : Command}
    (hc : c.deletes = false) : (c.execute call).KeepsText :=
  fun s => course_text.command hcall (allowed_of_deletes hc call s)

/-- Where the functions that delete lines are not run, calls keep the text. -/
theorem keepsText_diverted (n : Nat) :
    (diverted Request.deletes (fun _ _ _ _ => .exhausted) n).KeepsText := by
  rw [← guarded_eq_diverted]
  exact course_text.guarded (fun _ _ _ _ hr => Request.allowed_of_deletes
    (Bool.eq_false_iff.mpr hr)) n

namespace Command

/-- **Commands marked as `readOnly` do not change the text themselves.**  If one has changed it,
then it has called a function with a `delete` command in its body: whenever it makes no such
call, the buffer is what it was, whatever the outcome is.  A command that reads a plain text
makes no calls at all. -/
theorem keepsText_of_readOnly {c : Command} (hc : c.descriptor.access = .readOnly) :
    (∀ n s, (∀ p, c.execute (diverted Request.deletes p n) s = c.execute (callFunction n) s) →
      (c.execute (callFunction n) s).2.editor.buffer = s.editor.buffer) ∧
    (∀ tc line, c = .text tc line →
      ∀ n s, (c.execute (callFunction n) s).2.editor.buffer = s.editor.buffer) := by
  have hkeeps (n : Nat) (s : State)
      (hcalls : ∀ p, c.execute (diverted Request.deletes p n) s = c.execute (callFunction n) s) :
      (c.execute (callFunction n) s).2.editor.buffer = s.editor.buffer := by
    -- the run is that in which such functions are not called at all
    rw [← hcalls fun _ _ _ _ => .exhausted]
    exact keepsText_execute (keepsText_diverted n) (deletes_eq_false_of_readOnly hc) s
  refine ⟨hkeeps, ?_⟩
  rintro tc line rfl n s
  -- what reads a plain text makes no calls that could be led astray
  refine hkeeps n s fun p => ?_
  cases tc with
  | _ => rfl

/-- A message with the value of a function, beside which there is one that deletes lines. -/
theorem keepsText_of_readOnly_of_call :
    ∃ (c : Command) (s : State),
      c.descriptor.access = .readOnly ∧
      (∀ p, c.execute (diverted Request.deletes p 2) s = c.execute (callFunction 2) s) ∧
      (c.execute (callFunction 2) s).1 = .value () ∧
      Request.deletes ⟨"F", [], {}⟩ s = true ∧
      (c.execute (callFunction 2) s).2.editor.buffer = s.editor.buffer := by
  obtain ⟨c, hc⟩ : ∃ c, c = Command.echo false [.call "G" []] := ⟨_, rfl⟩
  obtain ⟨s, hs⟩ : ∃ s : State, s =
      { session :=
          { (default : Session) with
            functions :=
              ⟨(Dict.empty.insert "F" ⟨⟨.named "F", [.command (.text .delete {})]⟩, none⟩).insert
                "G" ⟨⟨.named "G", []⟩, none⟩, .empty⟩ }
        editor := .ofString ⟨1⟩ "one" } := ⟨_, rfl⟩
  have haccess : c.descriptor.access = .readOnly := by rw [hc, descriptor]
  have hcalls (p : Nat → Caller) :
      c.execute (diverted Request.deletes p 2) s = c.execute (callFunction 2) s := by
    rw [hc, hs]
    cbv
  refine ⟨c, s, haccess, hcalls, ?_, ?_, (keepsText_of_readOnly haccess).1 2 s hcalls⟩
  · rw [hc, hs]
    cbv
  · rw [hs]
    cbv

/-- A message with the value of a function that deletes a line: the command is marked as
`readOnly`, and the line is gone. -/
theorem not_keepsText_of_echo :
    ∃ (c : Command) (s : State),
      c.descriptor.access = .readOnly ∧
      s.editor.buffer.text = "one\ntwo\n" ∧
      (c.execute (callFunction 2) s).1 = .value () ∧
      (c.execute (callFunction 2) s).2.editor.buffer.text = "two\n" := by
  refine ⟨.echo false [.call "F" []],
    { session :=
        { (default : Session) with
          functions :=
            ⟨Dict.empty.insert "F" ⟨⟨.named "F", [.command (.text .delete {})]⟩, none⟩, .empty⟩ }
      editor := .ofString ⟨1⟩ "one\ntwo\n" }, rfl, ?_, ?_, ?_⟩
  · cbv
  · cbv
  · cbv

end Command

end ModalScript
