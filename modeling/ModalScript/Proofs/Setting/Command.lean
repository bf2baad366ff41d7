/-
What the settings commands do to the settings.

Whatever its argument is, a settings command does nothing but write settings, one after the
other, at the shared scope or at that of its own editor: the settings afterwards are
`Settings.Rewritten` from those before, and so they are if an item fails half-way
(`SetRun.writes_run`).  What any sequence of writes preserves is therefore preserved by the
commands.
-/
import Mathlib.Logic.Relation
import ModalScript.Command.Set
import ModalScript.Proofs.Setting.Write

namespace ModalScript

/-! ### Sequences of writes -/

namespace Settings

/-- One write at the shared scope or at that of an editor, refused or not. -/
def Written (id : EditorId) (s s' : Settings) : Prop :=
  ∃ (w : SettingWrite) (scope : SettingScope) (name : String),
    (scope = .shared ∨ scope = .editor id) ∧ s' = (w.run scope name s).2

/-- Any number of writes at the shared scope or at that of an editor. -/
def Rewritten (id : EditorId) : Settings → Settings → Prop :=
  Relation.ReflTransGen (Written id)

variable {id : EditorId} {s : Settings}

theorem Rewritten.refl (id : EditorId) (s : Settings) : Rewritten id s s :=
  Relation.ReflTransGen.refl

/-- A single write counts, whether it is refused or not. -/
theorem rewritten_write (w : SettingWrite) (s : Settings) {scope : SettingScope} (name : String)
    (hscope : scope = .shared ∨ scope = .editor id) : Rewritten id s (w.run scope name s).2 :=
  Relation.ReflTransGen.single ⟨w, scope, name, hscope, rfl⟩

end Settings

/-- Every kind of the command writes at the shared scope or at that of its editor. -/
theorem SetKind.eq_or_of_mem_writeScopes {kind : SetKind} {id : EditorId} {kept : SettingKind}
    {scope : SettingScope} (h : scope ∈ kind.writeScopes id kept) :
    scope = .shared ∨ scope = .editor id := by
  unfold writeScopes at h
  split at h
  · rcases List.mem_cons.mp h with h | h
    · exact Or.inr h
    · exact Or.inl (List.mem_singleton.mp h)
  · exact Or.inr (List.mem_singleton.mp h)
  · exact Or.inl (List.mem_singleton.mp h)
  · exact Or.inl (List.mem_singleton.mp h)

/-! ### Computations that only write settings -/

namespace SetRun

variable {α β : Type} {id : EditorId} {m : SetRun α}

/-- The computation does nothing to the settings but write some of them. -/
def Writes (id : EditorId) (m : SetRun α) : Prop :=
  ∀ p : SetProgress, p.settings.Rewritten id (m p).2.settings

/-- After a failure nothing more is done, and what has been written stays. -/
theorem bind_apply (m : SetRun α) (f : α → SetRun β) (p : SetProgress) :
    (m >>= f) p =
      match m p with
      | (.ok a, p') => f a p'
      | (.error e, p') => (.error e, p') := by
  -- the settings are threaded below the error, so that they are there in both cases
  rcases h : m p with ⟨r, p'⟩
  simp only [bind, ExceptT.bind, ExceptT.mk, StateT.bind, h]
  cases r <;> rfl

/-- Writes after writes are writes, also if the second computation does not come to run. -/
theorem Writes.bind {f : α → SetRun β} (hm : Writes id m) (hf : ∀ a, Writes id (f a)) :
    Writes id (m >>= f) := by
  intro p
  have hp := hm p
  rw [bind_apply]
  rcases h : m p with ⟨r, p'⟩
  rw [h] at hp
  cases r with
  | ok a => exact hp.trans (hf a p')
  | error e => exact hp

theorem writes_pure (a : α) : Writes id (pure a : SetRun α) :=
  fun p => .refl id p.settings

theorem writes_throw (e : ExecError) : Writes id (throw e : SetRun α) :=
  fun p => .refl id p.settings

theorem writes_get : Writes id (MonadState.get : SetRun SetProgress) :=
  fun p => .refl id p.settings

theorem writes_lift (r : Except ExecError α) : Writes id (liftM r : SetRun α) :=
  fun p => .refl id p.settings

/-- Showing a setting writes none. -/
theorem writes_showSetting (scope : SettingScope) (d : SettingDeclaration) :
    Writes id (showSetting scope d) :=
  fun p => .refl id p.settings

/-- Settings may be written for one element after the other. -/
theorem Writes.forM {as : List α} {f : α → SetRun Unit} (h : ∀ a ∈ as, Writes id (f a)) :
    Writes id (as.forM f) := by
  induction as with
  | nil => exact writes_pure _
  | cons a as ih =>
    rw [List.forall_mem_cons] at h
    exact .bind h.1 fun _ => ih h.2

/-- A write of the settings is one of the command. -/
theorem writes_configure (w : SettingWrite) {scope : SettingScope} (name : String)
    (hscope : scope = .shared ∨ scope = .editor id) :
    Writes id (configure (w.run scope name)) :=
  fun p => Settings.rewritten_write w p.settings name hscope

/-! ### What the commands do -/

/-- One write may be made at several scopes. -/
theorem writes_onAll (w : SettingWrite) (kind : SetKind) (d : SettingDeclaration) (name : String) :
    Writes id (onAll kind id d fun scope => w.run scope name) :=
  .forM fun _ hscope => writes_configure w name (SetKind.eq_or_of_mem_writeScopes hscope)

/-- A flag is turned into its opposite by writing its other value. -/
theorem writes_flip (kind : SetKind) (d : SettingDeclaration) : Writes id (flip kind id d) := by
  refine .bind writes_get fun p => ?_
  -- only a flag has an opposite
  split
  · next b _ => exact writes_onAll (.value (.flag !b)) kind d d.name
  · exact writes_throw _

/-- Whatever is done to a setting is done by one kind of write. -/
theorem writes_act (kind : SetKind) (d : SettingDeclaration) (action : SetAction) :
    Writes id (act kind id d action) := by
  cases action with
  | plain =>
    simp only [act]
    -- for a flag the name alone turns it on, for others it shows the value
    split
    · exact writes_onAll .turnOn kind d d.name
    · exact writes_showSetting _ d
  | «show» => exact writes_showSetting _ d
  | disable => exact writes_onAll .turnOff kind d d.name
  | toggle =>
    simp only [act]
    split
    · exact writes_flip kind d
    · exact writes_throw _
  | reset => exact writes_onAll .reset kind d d.name
  | assign text => exact writes_onAll (.text text) kind d d.name
  | edit e operand => exact writes_onAll (.edit e operand) kind d d.name

/-- All settings are reset by writes too, one setting after the other. -/
theorem writes_applyItem (kind : SetKind) (item : SetItem) :
    Writes id (applyItem kind id item) := by
  cases item with
  | showAll =>
    exact .bind writes_get fun _ => .forM fun d _ => writes_showSetting _ d
  | resetAll =>
    exact .bind writes_get fun _ => .forM fun d _ => writes_onAll .reset kind d d.name
  | setting name action =>
    exact .bind writes_get fun _ => .bind (writes_lift _) fun r => writes_act kind r.1 r.2

/-- An item that cannot be read writes nothing. -/
theorem writes_runItem (kind : SetKind) (text : String) : Writes id (runItem kind id text) :=
  .bind (writes_lift _) fun item => writes_applyItem kind item

theorem writes_showChanged (kind : SetKind) : Writes id (showChanged kind id) :=
  .bind writes_get fun _ => .forM fun d _ => writes_showSetting _ d

/-- A settings command only writes settings. -/
theorem writes_run (kind : SetKind) (argument : String) : Writes id (run kind id argument) := by
  unfold run
  split
  · exact writes_showChanged kind
  · exact .forM fun text _ => writes_runItem kind text

end SetRun

end ModalScript
