/-
The calls that a run makes.

Whether a run makes calls of some sort is asked by a detour: `diverted B p` calls as
`callFunction` does, except that the calls for which `B` holds go to `p`.  A run that comes
out the same whatever `p` does has made no such call, and `Avoids` says just this.  The
calls are judged by the request and the state in which it is made, so that `B` may speak of
the stack of frames or of the settings at that moment.

A sort that is part of another one is avoided with it (`Avoids.mono`).  In particular, as
long as the limit on the depth of calls stays the same, no call makes the stack of frames
higher than the limit (`Avoids.exceeds`).
-/
import ModalScript.Proofs.Script.Resolution

namespace ModalScript

variable {B B' : Request → State → Bool} {p : Nat → Caller} {n fuel D : Nat}
  {script : List Statement} {s : State}

/-! ### Runs with another caller -/

/-- Runs the statements of a script, where `call` is used for all calls. -/
def runScriptWith (call : Caller) (fuel : Nat) : List Statement → Interp Unit
  | [], s => (.value (), s)
  | st :: sts, s =>
    match (st.execute call fuel).collecting s with
    | (.value signal, s) =>
      let (problem?, goesOn) := signal.atTop
      let s := { s with session := s.session.report problem? }
      if goesOn then runScriptWith call fuel sts s else (.value (), s)
    | (.failed .finish, s) => (.value (), s)
    | (.failed e, s) => (.failed e, { s with session := s.session.reportError e.message })
    | (.outOfFuel, s) => (.outOfFuel, s)

/-- With the calls of the program this is the run of the program. -/
theorem runScriptWith_callFunction (fuel : Nat) (script : List Statement) :
    runScriptWith (callFunction fuel) fuel script = runScript fuel script := by
  induction script with
  | nil => rfl
  | cons st sts ih =>
    funext s
    rcases hr : (st.execute (callFunction fuel) fuel).collecting s with ⟨r, s'⟩
    cases r with
    | value signal => simp only [runScriptWith, runScript, hr, ih]
    | failed e => cases e <;> simp only [runScriptWith, runScript, hr]
    | outOfFuel => simp only [runScriptWith, runScript, hr]

/-! ### Detours -/

/-- Calls functions as `callFunction` does, but leaves the calls for which `B` holds to `p`,
which is told the fuel. -/
def diverted (B : Request → State → Bool) (p : Nat → Caller) : Nat → Caller
  | 0 => fun _ _ _ => .exhausted
  | n + 1 => fun name args site s =>
    if B ⟨name, args, site⟩ s then p (n + 1) name args site s
    else callStep (diverted B p n) n name args site s

/-- A call for which `B` holds goes to `p`. -/
theorem diverted_of_hit {r : Request} (h : B r s = true) :
    r.make (diverted B p (n + 1)) s = r.make (p (n + 1)) s :=
  if_pos h

/-- Any other call is made as it would be, but the calls inside of it are judged again. -/
theorem diverted_of_miss {r : Request} (h : B r s = false) :
    r.make (diverted B p (n + 1)) s = r.make (callStep (diverted B p n) n) s := by
  have hmiss : ¬ B r s = true := by
    rw [h]
    exact Bool.false_ne_true
  exact if_neg hmiss

/-- A detour that comes to the same thing. -/
theorem diverted_callFunction (B : Request → State → Bool) (n : Nat) :
    diverted B callFunction n = callFunction n := by
  induction n with
  | zero => rfl
  | succ n ih =>
    funext name args site s
    let r : Request := ⟨name, args, site⟩
    show r.make (diverted B callFunction (n + 1)) s = r.make (callFunction (n + 1)) s
    cases hB : B r s with
    | true => exact diverted_of_hit hB
    | false =>
      rw [diverted_of_miss hB, ih]
      rfl

/-- A detour for fewer calls is a detour for more calls that leads some of them back. -/
theorem diverted_of_imp (h : ∀ r t, B' r t = true → B r t = true) (p : Nat → Caller) (n : Nat) :
    diverted B (diverted B' p) n = diverted B' p n := by
  induction n with
  | zero => rfl
  | succ n ih =>
    funext name args site s
    let r : Request := ⟨name, args, site⟩
    show r.make (diverted B (diverted B' p) (n + 1)) s = r.make (diverted B' p (n + 1)) s
    cases hB : B r s with
    | true => exact diverted_of_hit hB
    | false =>
      -- a call that is not led away by more is not led away by less
      have hB' : B' r s = false := by
        refine Bool.eq_false_iff.mpr fun hB' => ?_
        rw [h r s hB'] at hB
        cases hB
      rw [diverted_of_miss hB, diverted_of_miss hB', ih]

/-- The run of a script makes no call for which `B` holds. -/
def Avoids (B : Request → State → Bool) (fuel : Nat) (script : List Statement) (s : State) :
    Prop :=
  ∀ p, runScriptWith (diverted B p fuel) fuel script s = runScript fuel script s

/-- Who avoids calls avoids some of them. -/
theorem Avoids.mono (h : Avoids B fuel script s) (hB : ∀ r t, B' r t = true → B r t = true) :
    Avoids B' fuel script s := by
  intro p
  have hp := h (diverted B' p)
  rw [diverted_of_imp hB p fuel] at hp
  exact hp

/-! ### Calls and the depth of calls -/

/-- Whether a request gets a frame: it is for a user-defined function, and not refused. -/
def Request.getsFrame (r : Request) (t : State) : Bool :=
  match Callee.ofName t r.name with
  | .user f =>
    match checkCall t f.function.signature r.args r.site with
    | .ok () => true
    | .error _ => false
  | _ => false

/-- A call that gets a frame is not too deep. -/
theorem Request.depth_lt_of_getsFrame {r : Request} {t : State} (h : r.getsFrame t = true) :
    t.session.vars.depth < t.session.maxCallDepth := by
  unfold getsFrame at h
  split at h
  · split at h
    · next hcheck => exact depth_lt_of_checkCall hcheck
    · cases h
  · cases h

/-- Whether a call evades the limit `D` on the depth of calls: it is handed over to another
name, or it is made while the limit is another one. -/
def Evades (D : Nat) (r : Request) (t : State) : Bool :=
  (r.hop t).isSome || t.session.maxCallDepth != D

/-- Whether a call makes the stack of frames higher than `D`. -/
def Exceeds (D : Nat) (r : Request) (t : State) : Bool :=
  r.getsFrame t && decide (D < t.session.vars.depth + 1)

theorem evades_eq_false_iff {r : Request} {t : State} :
    Evades D r t = false ↔ r.hop t = none ∧ t.session.maxCallDepth = D := by
  simp [Evades]

/-- As long as no call evades the limit, none goes beyond it. -/
theorem Avoids.exceeds (h : Avoids (Evades D) fuel script s) :
    Avoids (Exceeds D) fuel script s := by
  refine h.mono fun r t hexceeds => ?_
  obtain ⟨hframe, hheight⟩ := Bool.and_eq_true_iff.mp hexceeds
  have hdepth := Request.depth_lt_of_getsFrame hframe
  -- the limit would have refused the call, were it `D`
  have hlimit : t.session.maxCallDepth ≠ D := by
    have := of_decide_eq_true hheight
    omega
  exact Bool.or_eq_true_iff.mpr (.inr (bne_iff_ne.mpr hlimit))

end ModalScript
