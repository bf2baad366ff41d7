/-
A session never classifies characters by an old keyword list.

`Session.Reachable` lists what can happen to a session: scripts, statements, expressions and
calls that run against any editor, init scripts, writes of settings by the host, new
settings, editors and listeners, and whatever else the host does without touching the
settings.  All that runs only writes settings (`Effect.rewritten`), and so does an init
script (`InitScript.rewritten_run`); the invariant of the settings does the rest.

Main result: the classifier of a reachable session is the one that the current value of the
keyword setting makes (`Session.keywords_of_reachable`), whatever listeners that were added
later have refused.
-/
import ModalScript.Proofs.Script.Confined
import ModalScript.Proofs.Setting.Keywords
import ModalScript.Setting.InitScript

namespace ModalScript

/-! ### What runs only writes settings -/

/-- Nothing happens to the settings but writes, at the shared scope or at that of the editor,
which stays the same editor. -/
theorem Effect.rewritten {l : Layer} {s t : State} (h : Effect l s t) :
    t.editor.id = s.editor.id ∧
      s.session.settings.Rewritten s.editor.id t.session.settings := by
  induction h with
  | refl => exact ⟨rfl, .refl _ _⟩
  | trans _ _ ih ih' =>
    obtain ⟨hid, hsettings⟩ := ih
    obtain ⟨hid', hsettings'⟩ := ih'
    rw [hid] at hsettings'
    exact ⟨hid'.trans hid, hsettings.trans hsettings'⟩
  | statement _ ih | invocation _ ih => exact ih
  | call name _ _ _ ih =>
    -- frames come and go with the variables only
    exact ih
  | settings h => exact ⟨rfl, h⟩
  | heap | store | remove | define | deleteFunction | echo | reportError | goTo | deleteLines
  | bindArgument => exact ⟨rfl, .refl _ _⟩

/-! ### Init scripts only write settings -/

section InitScripts

variable (id : EditorId)

/-- A write and a fixed answer. -/
theorem Configure.snd_andThen_pure {α : Type} (m : Configure Unit) (a : α) (s : Settings) :
    ((do m; return a : Configure α) s).2 = (m s).2 := by
  show (ExceptT.bind m (fun _ => pure a) s).2 = (m s).2
  rcases hm : m s with ⟨r, s'⟩
  simp only [ExceptT.bind, ExceptT.mk, bind, StateT.bind, hm]
  cases r <;> rfl

/-- A question leaves the settings alone. -/
theorem Configure.snd_lift_pure {α β : Type} (r : Except SettingError α) (f : α → β)
    (s : Settings) : ((do let a ← r; return f a : Configure β) s).2 = s := by
  rw [Configure.lift_bind]
  cases r <;> rfl

/-- A call in an init script writes a setting at the shared scope, or none. -/
theorem InitCall.rewritten_run (call : InitCall) (s : Settings) :
    s.Rewritten id (call.run s).2 := by
  -- flags, numbers, texts and edits are writes of one kind each
  have hwrite (w : SettingWrite) (name : String) :
      s.Rewritten id ((do w.run .shared name; return none : Configure (Option String)) s).2 := by
    rw [Configure.snd_andThen_pure]
    exact Settings.rewritten_write w s name (Or.inl rfl)
  cases call with
  | setFlag name b => exact hwrite (.value (.flag b)) name
  | setNumber name n => exact hwrite (.assign .empty (.integer n)) name
  | setText name text => exact hwrite (.text text) name
  | edit name operand e => exact hwrite (.edit e operand) name
  | reset name => exact hwrite .reset name
  | get name =>
    have hs : ((InitCall.get name).run s).2 = s :=
      Configure.snd_lift_pure (s.get .shared name) (fun v => some v.initText) s
    rw [hs]
    exact .refl id s
  | isSet name =>
    have hs : ((InitCall.isSet name).run s).2 = s :=
      Configure.snd_lift_pure (s.isOn .shared name)
        (fun b => some (if b then "true" else "false")) s
    rw [hs]
    exact .refl id s
  | list => exact .refl id s

/-- So do several calls, up to the first that fails or answers something. -/
theorem rewritten_runInitCalls (line : Nat) (calls : List InitCall) (s : Settings) :
    s.Rewritten id (runInitCalls line calls s).2 := by
  induction calls generalizing line s with
  | nil => exact .refl id s
  | cons call calls ih =>
    have hcall := call.rewritten_run id s
    rcases hr : call.run s with ⟨r, s'⟩
    rw [hr] at hcall
    simp only [runInitCalls, hr]
    -- a failing call ends the script, and what it has done is done
    cases r with
    | error e => exact hcall
    | ok result =>
      cases result with
      | some text => exact hcall
      | none => exact hcall.trans (ih (line + 1) s')

/-- An init script that cannot be read writes nothing. -/
theorem InitScript.rewritten_run (script : InitScript) (s : Settings) :
    s.Rewritten id (script.run s).2 := by
  cases script with
  | script calls => exact rewritten_runInitCalls id 1 calls s
  | absent | unreadable | malformed => exact .refl id s

end InitScripts

/-! ### Reachable sessions -/

namespace Session

/-- Sessions that come about from a new one by any sequence of operations. -/
inductive Reachable : Session → Prop
  | new {s : Session} : ofSettings .initial = .ok s → Reachable s
  /-- A script is run, to its end or until the fuel is spent. -/
  | script {s : Session} (n : Nat) (script : List Statement) (editor : Editor) :
      Reachable s → Reachable (runScript n script ⟨s, editor⟩).2.session
  | statement {s : Session} (n fuel : Nat) (st : Statement) (editor : Editor) :
      Reachable s → Reachable (st.execute (callFunction n) fuel ⟨s, editor⟩).2.session
  | expression {s : Session} (n : Nat) (e : Expr) (editor : Editor) :
      Reachable s → Reachable (e.evaluate (callFunction n) ⟨s, editor⟩).2.session
  | call {s : Session} (n : Nat) (name : String) (args : List Value) (site : CallSite)
      (editor : Editor) :
      Reachable s → Reachable (callFunction n name args site ⟨s, editor⟩).2.session
  | init {s : Session} (script : InitScript) :
      Reachable s → Reachable { s with settings := (script.run s.settings).2 }
  /-- The host writes a setting, and the write may be refused. -/
  | write {s : Session} (w : SettingWrite) (scope : SettingScope) (name : String) :
      Reachable s → Reachable { s with settings := (w.run scope name s.settings).2 }
  | declare {s : Session} {d : SettingDeclaration} {settings : Settings} :
      Reachable s → s.settings.declare d = .ok settings → Reachable { s with settings }
  /-- Somebody else listens, and may refuse what he hears of. -/
  | listen {s : Session} {name tag : String}
      {answer : List (String × SettingChange) → SettingChange → Except SettingError Unit}
      {settings : Settings} :
      Reachable s → s.settings.listen name (.witness tag answer) = .ok settings →
      Reachable { s with settings }
  | attach {s : Session} (id : EditorId) : Reachable s → Reachable (s.attach id)
  | detach {s : Session} (id : EditorId) : Reachable s → Reachable (s.detach id)
  /-- What witnesses have noted may change by itself. -/
  | notices {s : Session} (notices : List (String × SettingChange)) :
      Reachable s →
      Reachable { s with
        settings := { s.settings with audience := { s.settings.audience with notices } } }
  /-- The host does something else. -/
  | other {s t : Session} : Reachable s → t.settings = s.settings → Reachable t

/-- A new session has the settings that every session has, and listens to the keyword setting. -/
theorem settings_of_new {s : Session} (hs : ofSettings .initial = .ok s) :
    ∃ audience, s.settings =
      { Settings.initial with
        listeners := [(keywordSetting, .keywordTable)], audience := audience } := by
  cases hs
  exact ⟨_, rfl⟩

/-- The settings of a new session. -/
theorem keywordsFollow_of_new {s : Session} (h : ofSettings .initial = .ok s) :
    s.settings.KeywordsFollow := by
  cases h
  refine ⟨⟨_, rfl, rfl⟩, ?_, ⟨[], rfl⟩, ?_, ["@", "48-57", "_"], rfl, rfl⟩
  · -- the keyword setting comes first in the catalogue, and no later one has its name
    intro d hd hname
    have hnew : keywordSetting ∉ Catalogue.settings.tail.map (·.name) := by decide
    rcases List.mem_cons.mp hd with rfl | hd
    · exact ⟨rfl, rfl⟩
    · exact absurd (List.mem_map.mpr ⟨d, hd, hname⟩) hnew
  · intro p hp _
    obtain rfl := List.mem_singleton.mp hp
    rfl

/-- Whatever happens to a session, the classifier follows the keyword setting. -/
theorem Reachable.keywordsFollow {s : Session} (h : s.Reachable) : s.settings.KeywordsFollow := by
  induction h with
  | new h => exact keywordsFollow_of_new h
  | script n script editor _ ih =>
    exact ih.rewritten (confined_runScript n script ⟨_, editor⟩).rewritten.2
  | statement n fuel st editor _ ih =>
    exact ih.rewritten
      (st.confined_execute (confined_callFunction n) fuel ⟨_, editor⟩).rewritten.2
  | expression n e editor _ ih =>
    exact ih.rewritten (e.confined_evaluate (confined_callFunction n) ⟨_, editor⟩).rewritten.2
  | call n name args site editor _ ih =>
    exact ih.rewritten (confined_callFunction n name args site ⟨_, editor⟩).rewritten.2
  | init script _ ih => exact ih.rewritten (script.rewritten_run ⟨0⟩ _)
  | write w scope name _ ih => exact ih.write w scope name
  | declare _ h ih => exact ih.declare h
  | listen _ h ih => exact ih.listen h
  | attach id _ ih => exact ih.register id
  | detach id _ ih => exact ih.forget id
  | notices notices _ ih => exact ih.withNotices notices
  | other _ h ih =>
    rw [h]
    exact ih

/-- **The classifier never goes stale.**  In a reachable session the keyword setting, at
whatever scope it is read, is a list of tokens, and characters are classified as the
classifier of just this list does it. -/
theorem keywords_of_reachable {s : Session} (h : s.Reachable) :
    ∃ ts k, (∀ scope, s.settings.get scope keywordSetting = .ok (.tokens ts)) ∧
      KeywordClassifier.ofTokens ts = .ok k ∧ s.settings.audience.keywords = k ∧
      ∀ c, s.isKeyword c = k.isKeyword c := by
  obtain ⟨ts, hts, hk⟩ := h.keywordsFollow.classifier_eq
  exact ⟨ts, s.settings.audience.keywords, hts, hk, rfl, fun c => rfl⟩

/-- Somebody who listens refuses a new keyword list: the write fails, but the list has been
stored, and the classifier is that of the new list all the same. -/
theorem keywords_of_refused_write :
    ∃ s t : Session, s.isKeyword '_' = true ∧
      (SettingWrite.text "@").run .shared "isk" s.settings =
        (.error (.rejected "iskeyword" "@" "refused"), t.settings) ∧
      t.Reachable ∧
      (∃ ts k, (∀ scope, t.settings.get scope keywordSetting = .ok (.tokens ts)) ∧
        KeywordClassifier.ofTokens ts = .ok k ∧ t.settings.audience.keywords = k ∧
        ∀ c, t.isKeyword c = k.isKeyword c) ∧
      t.isKeyword '_' = false := by
  obtain ⟨s, settings, hs, hlisten, hyes, hwrite, hno⟩ :
      ∃ s settings, ofSettings .initial = .ok s ∧
        s.settings.listen keywordSetting (.observer "host" (some "@")) = .ok settings ∧
        isKeyword { s with settings } '_' = true ∧
        ((SettingWrite.text "@").run .shared "isk" settings).1 =
          .error (.rejected "iskeyword" "@" "refused") ∧
        isKeyword { s with
          settings := ((SettingWrite.text "@").run .shared "isk" settings).2 } '_' = false :=
    ⟨_, _, rfl, rfl, rfl, rfl, rfl⟩
  -- the refused write is a step of its own, which ends in the same settings
  have hreach := ((Reachable.new hs).listen hlisten).write (.text "@") .shared "isk"
  exact ⟨_, _, hyes, Prod.ext hwrite rfl, hreach, keywords_of_reachable hreach, hno⟩

end Session

end ModalScript
