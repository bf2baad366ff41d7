/-
The local variables that a call cannot reach.

Local variables are reached through the innermost frame, or through the functions that have
captured them.  `Sealed l r s` says that neither way leads to `r`: no registered function
has captured it, and in the layers in which the innermost frame is at work, that frame is
not concerned with it.  A call cannot undo this: the frame it pushes has local variables
that did not exist before, and captures what a registered function has captured; and a
closure that is defined on the way captures the local variables of such a frame.

Main result: evaluating an expression or calling a function leaves the local variables of
every frame as they were, unless a registered function has captured them
(`localTable_run`).
-/
import ModalScript.Proofs.Script.Frames
import ModalScript.Proofs.Script.Registry

namespace ModalScript

/-! ### Captured variables -/

namespace Functions

variable {fs fs' : Functions} {r : LocalsRef} {f : DefinedFunction}

/-- No function has captured the local variables. -/
def NoneCaptures (fs : Functions) (r : LocalsRef) : Prop :=
  ∀ scope name f, (fs.table scope).get? name = some f → f.captured ≠ some r

/-- A definition adds a function that may not have captured them either. -/
theorem NoneCaptures.define (h : fs.NoneCaptures r) (hf : f.captured ≠ some r)
    (hfs' : fs.define f = .ok fs') : fs'.NoneCaptures r :=
  Every.define (P := fun f => f.captured ≠ some r) h hf hfs'

theorem NoneCaptures.remove (h : fs.NoneCaptures r) (name : String) :
    (fs.remove name).2.NoneCaptures r :=
  Every.remove (P := fun f => f.captured ≠ some r) h name

end Functions

/-! ### Sealed variables -/

/-- The frame has nothing to do with the local variables. -/
def Frame.Avoids (f : Frame) (r : LocalsRef) : Prop :=
  f.locals ≠ r ∧ f.captured ≠ some r

/-- Nothing that runs in the layer can reach the local variables. -/
structure Sealed (l : Layer) (r : LocalsRef) (s : State) : Prop where
  exist : r.slot < s.session.vars.localTables.size
  registry : s.session.functions.NoneCaptures r
  innermost : ∀ f, l ≠ .expression → s.session.vars.frame? = some f → f.Avoids r

namespace Sealed

variable {l : Layer} {r : LocalsRef} {s t : State}

/-- The frame of a registered function that is called avoids them. -/
theorem enter (h : Sealed .expression r s) {name : String} {f : DefinedFunction}
    (hf : s.session.functions.get? name = some f) : Sealed .invocation r (s.enter f) := by
  refine ⟨?_, h.registry, fun g _ hg => ?_⟩
  · show r.slot < (s.session.vars.localTables.push _).size
    rw [Array.size_push]
    exact Nat.lt_succ_of_lt h.exist
  · obtain ⟨scope, bare, hf⟩ := Functions.exists_table_of_get? hf
    cases hg
    refine ⟨?_, h.registry scope bare f hf⟩
    -- the table of the new frame is the one behind all that exist
    rintro rfl
    exact Nat.lt_irrefl _ h.exist

/-- An expression does not assign, so that the innermost frame does not matter. -/
theorem expression (h : Sealed l r s) : Sealed .expression r s :=
  ⟨h.exist, h.registry, fun _ hl => absurd rfl hl⟩

/-- The innermost frame is the same, and is not concerned with them. -/
theorem withFrames (h : Sealed l r s) (h' : Sealed .expression r t)
    (hframes : t.frames = s.frames) : Sealed l r t := by
  refine ⟨h'.exist, h'.registry, fun f hl hf => h.innermost f hl ?_⟩
  -- the innermost frame is the first one
  have hhead : t.frames.head? = s.frames.head? := by rw [hframes]
  exact hhead.symm.trans hf

/-- An assignment changes other variables only. -/
theorem localChange (h : Sealed .statement r s) {vars : Variables}
    (hvars : s.session.vars.LocalChange vars) :
    Sealed .statement r { s with session := { s.session with vars } } ∧
      vars.localTable r = s.session.vars.localTable r := by
  refine ⟨h.withFrames ⟨?_, h.registry, fun _ hl => absurd rfl hl⟩ hvars.1, ?_⟩
  · rw [hvars.size_eq]
    exact h.exist
  · exact hvars.localTable_eq fun f hf => h.innermost f (by simp) hf

/-- A function that is defined on the way captures those of the innermost frame, if any. -/
theorem define (h : Sealed .statement r s) {signature : Signature}
    {captured : Option LocalsRef} {functions : Functions} {body : List Statement}
    (hcaptured : capturedBy s.session signature = .ok captured)
    (hfunctions : s.session.functions.define ⟨⟨signature, body⟩, captured⟩ = .ok functions) :
    Sealed .statement r { s with session := { s.session with functions } } := by
  refine ⟨h.exist, h.registry.define ?_ hfunctions, h.innermost⟩
  unfold capturedBy at hcaptured
  split at hcaptured
  · split at hcaptured
    · next f hf =>
      -- a closure captures the local variables of the innermost frame
      cases hcaptured
      intro hr
      exact (h.innermost f (by simp) hf).1 (Option.some.inj hr)
    · cases hcaptured
  · cases hcaptured
    exact nofun

theorem bindArgument (h : Sealed .invocation r s) (name : String) (x : Value) :
    Sealed .invocation r
      { s with session := { s.session with vars := s.session.vars.bindArgument name x } } := by
  refine ⟨h.exist, h.registry, fun f hl hf => ?_⟩
  cases hframes : s.session.vars.frames with
  | nil => simp [Variables.bindArgument, Variables.frame?, hframes] at hf
  | cons g gs =>
    simp only [Variables.bindArgument, Variables.frame?, hframes, List.modifyHead_cons,
      List.head?_cons, Option.some.injEq] at hf
    -- the frame with one argument more has the same variables
    subst hf
    have hg : s.session.vars.frame? = some g := by rw [Variables.frame?, hframes, List.head?_cons]
    exact h.innermost g hl hg

end Sealed

/-- Nothing that happens in the layer changes sealed variables, or makes them reachable. -/
theorem Effect.sealed {l : Layer} {r : LocalsRef} {s t : State} (h : Effect l s t)
    (hs : Sealed l r s) :
    Sealed l r t ∧ t.session.vars.localTable r = s.session.vars.localTable r := by
  -- only the layer of the hypothesis changes on the way, `r` stays the same
  induction h with
  | refl => exact ⟨hs, rfl⟩
  | trans _ _ ih ih' =>
    obtain ⟨ht, htable⟩ := ih hs
    obtain ⟨hu, htable'⟩ := ih' ht
    exact ⟨hu, htable'.trans htable⟩
  | statement h ih =>
    -- an expression leaves the innermost frame, so what is known of it still holds
    obtain ⟨ht, htable⟩ := ih hs.expression
    exact ⟨hs.withFrames ht h.outer_frames, htable⟩
  | invocation h ih =>
    obtain ⟨ht, htable⟩ := ih ⟨hs.exist, hs.registry, fun f _ => hs.innermost f (by simp)⟩
    exact ⟨⟨ht.exist, ht.registry, fun f _ => ht.innermost f (by simp)⟩, htable⟩
  | call name hf _ _ ih =>
    obtain ⟨ht, htable⟩ := ih (hs.enter hf)
    refine ⟨⟨ht.exist, ht.registry, fun _ hl => absurd rfl hl⟩, htable.trans ?_⟩
    exact Variables.localTable_push _ _ _ hs.exist
  | store h => exact hs.localChange (Variables.localChange_store h)
  | remove h => exact hs.localChange (Variables.localChange_remove h)
  | define body hcaptured hfunctions => exact ⟨hs.define hcaptured hfunctions, rfl⟩
  | deleteFunction s name => exact ⟨⟨hs.exist, hs.registry.remove name, hs.innermost⟩, rfl⟩
  | bindArgument s name x => exact ⟨hs.bindArgument name x, rfl⟩
  | heap | settings | echo | reportError | goTo | deleteLines =>
    exact ⟨⟨hs.exist, hs.registry, hs.innermost⟩, rfl⟩

/-- **Isolation of local variables.**  The local variables of a running function that no
registered function has captured are the same after an expression or a call, however deep the
calls go, whatever functions they define, replace or delete, and however they end. -/
theorem localTable_run (n : Nat) {s : State} {f : Frame} (hf : f ∈ s.frames)
    (hfree : s.session.functions.NoneCaptures f.locals) :
    (∀ e : Expr, (e.evaluate (callFunction n) s).2.session.vars.localTable f.locals =
      s.session.vars.localTable f.locals) ∧
    (∀ name args site, (callFunction n name args site s).2.session.vars.localTable f.locals =
      s.session.vars.localTable f.locals) := by
  have hcall := confined_callFunction n
  -- between the layers of a call nothing but what is captured can lead there
  have hs : Sealed .expression f.locals s :=
    ⟨s.session.vars.allocated f hf, hfree, fun _ hl => absurd rfl hl⟩
  refine ⟨fun e => ?_, fun name args site => ?_⟩
  · exact ((Expr.confined_evaluate hcall e s).sealed hs).2
  · exact ((hcall name args site s).sealed hs).2

/-- A closure of one function, which assigns a variable and calls itself, leaves the variable of
the same name of another function alone. -/
theorem localTable_run_of_closure :
    let signature : Signature :=
      { Signature.named "Inner" with flags := { closure := true } }
    let body : List Statement :=
      [.command (.assign (.variable ⟨none, "x"⟩) .assign (.integer 1)),
        .command (.call none "Inner" [])]
    let outer := (Variables.initial.push "Outer" none).setLocal ⟨0⟩ "x" (.integer 7)
    let vars := outer.push "Maker" none
    let functions : Functions :=
      { globals := Dict.empty.insert "Inner" ⟨⟨signature, body⟩, some ⟨1⟩⟩, script := .empty }
    let s : State :=
      { session := ⟨.empty, vars, functions, .initial, #[]⟩, editor := .ofString ⟨1⟩ "" }
    ∃ f ∈ s.frames, s.session.functions.NoneCaptures f.locals ∧
      ∀ n site, ((callFunction n "Inner" [] site s).2.session.vars.localTable f.locals).get? "x" =
        some (.integer 7) := by
  intro signature body outer vars functions s
  have hf : (⟨"Outer", .empty, ⟨0⟩, none⟩ : Frame) ∈ s.frames :=
    List.mem_cons_of_mem _ List.mem_cons_self
  have hfree : s.session.functions.NoneCaptures ⟨0⟩ := by
    intro scope name g hg
    cases scope with
    | globals =>
      change (Dict.empty.insert "Inner" ⟨⟨signature, body⟩, some ⟨1⟩⟩).get? name = some g at hg
      rw [Dict.get?_insert] at hg
      split at hg
      · cases hg
        simp
      · cases hg
    | script => cases hg
  refine ⟨_, hf, hfree, fun n site => ?_⟩
  rw [(localTable_run n hf hfree).2 "Inner" [] site]
  rfl

end ModalScript
