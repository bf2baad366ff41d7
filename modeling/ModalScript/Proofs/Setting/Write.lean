/-
All ways of giving a setting a value, as data.

A `SettingWrite` is one of the operations that write a setting.  They differ only in the
value they ask for (`wanted`): each looks up the declaration, works out that value, and
commits it, and an edit that asks for the current value commits nothing.
`run_of_declared` and `run_of_unknown` say so once for all operations, and everything that
is proved about writes starts from these two.

`commit_refused` and `commit_accepted` take a commit apart in the same way.  So the settings
after a write are those before it, or a value that passed its check has been stored and
announced: what such a step keeps, every write keeps (`Settings.write_induction`).
-/
import ModalScript.Setting.Script

namespace ModalScript

/-! ### Computations on the settings -/

namespace Configure

variable {α β : Type}

theorem lift_bind (r : Except SettingError α) (k : α → Configure β) (s : Settings) :
    (do let a ← r; k a : Configure β) s =
      match r with
      | .ok a => k a s
      | .error e => (.error e, s) := by
  cases r <;> rfl

variable {name : String} {s : Settings}

/-- Behind the name of a setting its declaration is used. -/
theorem lookup_bind_ok {d : SettingDeclaration} (h : s.declaration? name = .ok d)
    (k : Settings → SettingDeclaration → Configure α) :
    (do let t ← MonadState.get; let d ← t.declaration? name; k t d : Configure α) s = k s d s := by
  show (do let d ← s.declaration? name; k s d : Configure α) s = k s d s
  rw [lift_bind, h]

/-- Without a declaration nothing else is done. -/
theorem lookup_bind_error {e : SettingError} (h : s.declaration? name = .error e)
    (k : Settings → SettingDeclaration → Configure α) :
    (do let t ← MonadState.get; let d ← t.declaration? name; k t d : Configure α) s =
      (.error e, s) := by
  show (do let d ← s.declaration? name; k s d : Configure α) s = (.error e, s)
  rw [lift_bind, h]

end Configure

/-! ### Committing -/

namespace Settings

variable {d : SettingDeclaration} {scope : SettingScope} {v : SettingValue} {s : Settings}

/-- The change that a commit announces. -/
def changeOf (s : Settings) (d : SettingDeclaration) (scope : SettingScope) (v : SettingValue) :
    SettingChange :=
  { name := d.name, scope := d.effectiveScope scope, old := s.current scope d, new := v }

theorem commit_refused {reason : String} (h : d.check.run v = .error reason) :
    commit d scope v s = (.error (.rejected d.name v.display reason), s) := by
  simp only [commit, h]

/-- A value that passes the check is stored and announced, whatever the listeners say. -/
theorem commit_accepted (h : d.check.run v = .ok ()) :
    commit d scope v s =
      ((s.store d (d.effectiveScope scope) v).notify d (s.changeOf d scope v)) := by
  simp only [commit, h, changeOf, current]

end Settings

/-! ### Writes -/

/-- A way of giving a setting a value. -/
inductive SettingWrite where
  /-- The value that a script value stands for. -/
  | assign (h : Heap) (v : Value)
  | value (v : SettingValue)
  /-- The value that a text writes. -/
  | text (t : String)
  | turnOn
  | turnOff
  | toggle
  | edit (e : Edit) (operand : String)
  | reset

namespace SettingWrite

/-- Writes the setting with a name. -/
def run (scope : SettingScope) (name : String) : SettingWrite → Configure Unit
  | .assign h v => Settings.assign h scope name v
  | .value v => Settings.setValue scope name v
  | .text t => Settings.setText scope name t
  | .turnOn => Settings.turnOn scope name
  | .turnOff => Settings.turnOff scope name
  | .toggle => Settings.toggle scope name
  | .edit e operand => Settings.edit scope name operand e
  | .reset => Settings.reset scope name

/-- A function of the current value of a flag. -/
def ofFlag (name : String) (f : Bool → Bool) : SettingValue → Except SettingError SettingValue
  | .flag b => .ok (.flag (f b))
  | v => .error (.wrongType name .flag v.type)

/-- The value that a write asks for, given the declaration and the current value. -/
def wanted (name : String) (d : SettingDeclaration) (current : SettingValue) :
    SettingWrite → Except SettingError SettingValue
  | .assign h v => Settings.coerce h d v
  | .value v => if v.type = d.type then .ok v else .error (.wrongType d.name d.type v.type)
  | .text t => Settings.parseText d t
  | .turnOn => ofFlag name (fun _ => true) current
  | .turnOff => ofFlag name (fun _ => false) current
  | .toggle => ofFlag name not current
  | .edit e operand => e.apply d current operand
  | .reset => .ok d.default

/-- Whether a write is relative to the current value and is left out if it changes nothing. -/
def isEdit : SettingWrite → Bool
  | .edit _ _ => true
  | _ => false

variable {scope : SettingScope} {name : String} {s : Settings}

/-- The write of a setting that does not exist. -/
theorem run_of_unknown {e : SettingError} (h : s.declaration? name = .error e)
    (w : SettingWrite) : w.run scope name s = (.error e, s) := by
  cases w with
  | edit op operand => exact Configure.lookup_bind_error h _
  | _ => exact Configure.lookup_bind_error h fun _ _ => _

/-- The three writes of flags differ in a function of the current value. -/
theorem changeFlag_of_declared {d : SettingDeclaration} (h : s.declaration? name = .ok d)
    (f : Bool → Bool) :
    Settings.changeFlag scope name f s =
      match ofFlag name f (s.current scope d) with
      | .error e => (.error e, s)
      | .ok v => Settings.commit d scope v s := by
  unfold Settings.changeFlag
  rw [Configure.lookup_bind_ok h]
  cases s.current scope d <;> rfl

/-- The write of a setting that exists. -/
theorem run_of_declared {d : SettingDeclaration} (h : s.declaration? name = .ok d)
    (w : SettingWrite) :
    w.run scope name s =
      match w.wanted name d (s.current scope d) with
      | .error e => (.error e, s)
      | .ok v =>
        if w.isEdit ∧ v = s.current scope d then (.ok (), s)
        else Settings.commit d scope v s := by
  cases w with
  | assign heap v =>
    simp only [run, Settings.assign, wanted, isEdit]
    rw [Configure.lookup_bind_ok h, Configure.lift_bind]
    cases Settings.coerce heap d v <;> simp
  | value v =>
    simp only [run, Settings.setValue, wanted, isEdit]
    rw [Configure.lookup_bind_ok h]
    split
    · simp
    · rfl
  | text t =>
    simp only [run, Settings.setText, wanted, isEdit]
    rw [Configure.lookup_bind_ok h, Configure.lift_bind]
    cases Settings.parseText d t <;> simp
  | turnOn | turnOff | toggle =>
    -- a flag that is already on is committed again, as it is no edit
    simp only [isEdit, Bool.false_eq_true, false_and, if_false]
    exact changeFlag_of_declared h _
  | edit e operand =>
    simp only [run, Settings.edit, wanted, isEdit]
    rw [Configure.lookup_bind_ok h, Configure.lift_bind]
    cases e.apply d (s.current scope d) operand with
    | error _ => rfl
    | ok v =>
      simp only [true_and]
      split <;> rfl
  | reset =>
    simp only [run, Settings.reset, wanted, isEdit]
    rw [Configure.lookup_bind_ok h]
    simp

end SettingWrite

/-- What storing and announcing a value keeps, if it is one that a write asks for and that passes
its check, is kept by writes. -/
theorem Settings.write_induction {s : Settings} {P : Settings → Prop} {w : SettingWrite}
    {scope : SettingScope} {name : String} (hs : P s)
    (hcommit : ∀ d v, s.declaration? name = .ok d →
      w.wanted name d (s.current scope d) = .ok v → d.check.run v = .ok () →
        P ((s.store d (d.effectiveScope scope) v).notify d (s.changeOf d scope v)).2) :
    P (w.run scope name s).2 := by
  cases hd : s.declaration? name with
  | error e =>
    rw [w.run_of_unknown hd]
    exact hs
  | ok d =>
    rw [w.run_of_declared hd]
    cases hv : w.wanted name d (s.current scope d) with
    | error e => exact hs
    | ok v =>
      simp only
      split
      · -- an edit without effect
        exact hs
      · -- a value that fails its check is not stored
        cases hcheck : d.check.run v with
        | error reason =>
          rw [commit_refused hcheck]
          exact hs
        | ok =>
          rw [commit_accepted hcheck]
          exact hcommit d v hd hv hcheck

end ModalScript
