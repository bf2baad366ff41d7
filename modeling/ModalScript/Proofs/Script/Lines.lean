/-
Functions that run once for each line.

A function that asks for the range of its call has its body run for one line after the other,
with the cursor on that line.  `Visits` says that the body has been run for some lines, each
run in the state that the one before has left; no run may be cut short by an error, but it may
return, jump or note problems.  From one run to the next nothing changes in the frame of the
call (`Visits.frames`), so that the arguments are there for each of them, and what the
invocation keeps of a run, which is its result and its last problem, is read off the list of
runs (`runLines_of_visits`).

Main result: `callFunction_visits_lines`.
-/
import Mathlib.Algebra.Group.Nat.Defs
import ModalScript.Proofs.Decimal.Numeral
import ModalScript.Proofs.Script.Bodies
import ModalScript.Proofs.Script.Frames

namespace ModalScript

/-! ### Runs for lines -/

/-- One run of the body of a function, which no error has cut short. -/
structure BodyRun where
  start : State
  returned : Option Value
  finish : State

/-- The state with the cursor at the start of a line, counted from 1, or of the last line if
there are fewer. -/
def State.atLine (s : State) (line : Nat) : State :=
  { s with
    editor := { s.editor with cursor := ⟨min (line - 1) (s.editor.buffer.lineCount - 1), 0⟩ } }

/-- A body has been run for lines, one after the other. -/
inductive Visits (call : Caller) (fuel : Nat) (policy : BodyPolicy) (body : List Statement) :
    State → List Nat → List BodyRun → State → Prop
  | nil (s : State) : Visits call fuel policy body s [] [] s
  | cons {s t : State} {line : Nat} {lines : List Nat} {run : BodyRun} {runs : List BodyRun}
      {ds : Diagnostics} :
      run.start = s.atLine line →
      runBody call fuel policy body {} run.start = ((.value run.returned, ds), run.finish) →
      Visits call fuel policy body run.finish lines runs t →
      Visits call fuel policy body s (line :: lines) (run :: runs) t

namespace Visits

variable {call : Caller} {fuel : Nat} {policy : BodyPolicy} {body : List Statement}
  {s t u : State} {lines lines' : List Nat} {runs runs' : List BodyRun}

theorem append (h : Visits call fuel policy body s lines runs t)
    (h' : Visits call fuel policy body t lines' runs' u) :
    Visits call fuel policy body s (lines ++ lines') (runs ++ runs') u := by
  induction h with
  | nil => exact h'
  | cons hstart hrun _ ih => exact .cons hstart hrun (ih h')

theorem length_runs (h : Visits call fuel policy body s lines runs t) :
    runs.length = lines.length := by
  induction h with
  | nil => rfl
  | cons _ _ _ ih => rw [List.length_cons, List.length_cons, ih]

/-- The cursor is put on a line of the text as the run before has left it. -/
theorem cursor_start (h : Visits call fuel policy body s lines runs t) :
    ∀ p ∈ lines.zip runs, p.2.start.editor.cursor.line =
      min (p.1 - 1) (p.2.start.editor.buffer.lineCount - 1) := by
  induction h with
  | nil => exact fun p hp => nomatch hp
  | cons hstart _ _ ih =>
    refine List.forall_mem_cons.mpr ⟨?_, ih⟩
    rw [hstart]
    rfl

/-- The frames are the same in all runs. -/
theorem frames (hcall : call.Confined) (h : Visits call fuel policy body s lines runs t) :
    ∀ run ∈ runs, run.start.frames = s.frames := by
  induction h with
  | nil => exact List.forall_mem_nil _
  | @cons s t line lines run runs ds hstart hrun _ ih =>
    have hstart' : run.start.frames = s.frames := by
      rw [hstart]
      rfl
    have hfinish : run.finish.frames = run.start.frames := by
      have heffect := effect_runBody hcall fuel policy body {} run.start
      rw [hrun] at heffect
      exact heffect.outer_frames
    refine List.forall_mem_cons.mpr ⟨hstart', fun run' hrun' => ?_⟩
    rw [ih run' hrun', hfinish, hstart']

end Visits

/-- No run for these lines that comes up is cut short by an error. -/
def NeverCut (call : Caller) (fuel : Nat) (policy : BodyPolicy) (body : List Statement)
    (s : State) (first count : Nat) : Prop :=
  ∀ k < count, ∀ runs t, Visits call fuel policy body s (List.range' first k) runs t →
    ∃ v ds u, runBody call fuel policy body {} (t.atLine (first + k)) = ((.value v, ds), u)

/-- What an invocation returns after its runs: what the last one returned that returned
something, or else 0. -/
def BodyRun.result (runs : List BodyRun) : Value :=
  (runs.filterMap (·.returned)).getLast?.getD (.integer 0)

/-- The last problem of all runs. -/
def BodyRun.lastProblem (call : Caller) (fuel : Nat) (policy : BodyPolicy)
    (body : List Statement) (runs : List BodyRun) : Option Diagnostic :=
  (runs.flatMap fun run => bodyProblems call fuel policy body run.start).getLast?

section Runs

variable {call : Caller} {fuel : Nat} {policy : BodyPolicy} {body : List Statement} {s : State}

/-- All lines are visited, if no run that comes up is cut short. -/
theorem exists_visits {first count : Nat} (hruns : NeverCut call fuel policy body s first count) :
    ∃ runs t, Visits call fuel policy body s (List.range' first count) runs t := by
  -- one line more at the end, since what is known of a run depends on those before it
  induction count with
  | zero => exact ⟨[], s, .nil s⟩
  | succ count ih =>
    obtain ⟨runs, t, hvisits⟩ := ih fun k hk => hruns k (Nat.lt_succ_of_lt hk)
    obtain ⟨v, ds, u, hrun⟩ := hruns count (Nat.lt_succ_self count) runs t hvisits
    refine ⟨runs ++ [⟨t.atLine (first + count), v, u⟩], u, ?_⟩
    rw [List.range'_1_concat]
    exact hvisits.append (.cons rfl hrun (.nil u))

/-- What an invocation keeps of the runs: what the last one returned that returned something,
and the problems of all. -/
theorem runLines_of_visits {count line : Nat} {runs : List BodyRun} {t : State}
    (h : Visits call fuel policy body s (List.range' line count) runs t)
    (returned : Option Value) (ds : Diagnostics) :
    runLines call fuel policy true body count line returned ds s =
      (.value ((runs.filterMap (·.returned)).getLast?.or returned,
        (runs.flatMap fun run => bodyProblems call fuel policy body run.start).foldl
          Diagnostics.add ds), t) := by
  induction count generalizing s line runs returned ds with
  | zero =>
    cases h
    rfl
  | succ count ih =>
    rw [List.range'_succ] at h
    cases h with
    | @cons _ _ _ _ run runs ds' hstart hrun hvisits =>
      have hbody : runBody call fuel policy body ds (s.follow true line) =
          ((.value run.returned,
            (bodyProblems call fuel policy body run.start).foldl Diagnostics.add ds),
            run.finish) := by
        show runBody call fuel policy body ds (s.atLine line) = _
        rw [← hstart, runBody_eq, hrun]
      unfold runLines
      rw [hbody]
      simp only [ih hvisits, List.flatMap_cons, List.foldl_append]
      cases hreturned : run.returned with
      | none => simp only [Option.none_or, List.filterMap_cons, hreturned]
      | some v =>
        simp only [Option.some_or, List.filterMap_cons, hreturned, List.getLast?_cons]
        cases (runs.filterMap (·.returned)).getLast? <;> rfl

end Runs

/-! ### The frame of the call -/

/-- The number of frames is the same in each layer. -/
theorem Effect.length_frames {l : Layer} {s t : State} (h : Effect l s t) :
    t.frames.length = s.frames.length := by
  induction h with
  | refl => rfl
  | trans _ _ ih ih' => exact ih'.trans ih
  | statement _ ih | invocation _ ih => exact ih
  | @call s t f name _ _ _ ih =>
    show t.frames.tail.length = s.frames.length
    rw [List.length_tail, ih]
    rfl
  | store h => exact congrArg List.length (Variables.localChange_store h).1
  | remove h => exact congrArg List.length (Variables.localChange_remove h).1
  | bindArgument s name x => exact List.length_modifyHead
  | heap | settings | define | deleteFunction | echo | reportError | goTo | deleteLines => rfl

/-- The frame of a call is there when its arguments have been bound. -/
theorem exists_frame_of_bound {call : Caller} (hcall : call.Confined) {f : DefinedFunction}
    {args : List Value} {s s₁ : State}
    (hbind : bindArguments call f.function.signature args (s.enter f) = (.value (), s₁)) :
    ∃ g gs, s₁.frames = g :: gs := by
  have hlength :=
    (confined_bindArguments hcall f.function.signature args (s.enter f)).length_frames
  rw [hbind] at hlength
  cases hs₁ : s₁.frames with
  | nil =>
    rw [hs₁] at hlength
    cases hlength
  | cons g gs => exact ⟨g, gs, rfl⟩

/-- The variables with the lines of a call as arguments. -/
def Variables.bindLines (vs : Variables) (range : LineRange) : Variables :=
  (vs.bindArgument "firstline" (.integer (Decimal.clamp range.first))).bindArgument "lastline"
    (.integer (Decimal.clamp range.last))

/-- The variables with the dictionary of a call as a local one. -/
def Variables.bindSelf (vs : Variables) (dict : Option DictRef) : Variables :=
  match dict, vs.frame? with
  | some r, some f => vs.setLocal f.locals "self" (.dict r)
  | _, _ => vs

/-- The state in which the body of a function starts, once its arguments have been bound. -/
def State.ready (s : State) (range : LineRange) (dict : Option DictRef) : State :=
  { s with session := { s.session with vars := (s.session.vars.bindLines range).bindSelf dict } }

theorem Variables.frames_bindLines {vs : Variables} {f : Frame} {fs : List Frame}
    (hframes : vs.frames = f :: fs) (range : LineRange) :
    (vs.bindLines range).frames =
      ((f.bind "firstline" (.integer (Decimal.clamp range.first))).bind "lastline"
        (.integer (Decimal.clamp range.last))) :: fs := by
  show (vs.frames.modifyHead _).modifyHead _ = _
  rw [hframes]
  rfl

theorem Variables.frames_bindSelf (vs : Variables) (dict : Option DictRef) :
    (vs.bindSelf dict).frames = vs.frames := by
  unfold Variables.bindSelf
  split
  · rfl
  · rfl

/-- With its arguments bound, a call is ready for its body. -/
theorem prepare_of_bound {call : Caller} {f : Function} {args : List Value} {s s₁ : State}
    {g : Frame} {gs : List Frame}
    (hbind : bindArguments call f.signature args s = (.value (), s₁))
    (hframes : s₁.frames = g :: gs) (dict : Option DictRef) (range : LineRange) :
    prepare call f args dict range s = (.value (), s₁.ready range dict) := by
  refine (Interp.bind_of_value hbind _).trans ?_
  cases dict with
  | none => rfl
  | some r =>
    -- there is a frame, so that the dictionary can be stored
    have hself (id : EditorId) :
        (s₁.session.vars.bindLines range).store ⟨some .locals, "self"⟩ (.dict r) id =
          .ok ((s₁.session.vars.bindLines range).bindSelf (some r)) := by
      simp only [Variables.store, Variables.bindSelf, Variables.frame?,
        Variables.frames_bindLines hframes, List.head?_cons]
    show Interp.store ⟨some .locals, "self"⟩ (.dict r)
      { s₁ with session := { s₁.session with vars := s₁.session.vars.bindLines range } } = _
    simp only [Interp.store, Interp.onVariables, hself]
    rfl

/-- Behind its arguments an invocation goes through the lines and shows the last problem. -/
theorem runInvocation_of_bound {call : Caller} {f : Function} {args : List Value} {s s₁ : State}
    {g : Frame} {gs : List Frame}
    (hbind : bindArguments call f.signature args s = (.value (), s₁))
    (hframes : s₁.frames = g :: gs) (fuel : Nat) (dict : Option DictRef) (span : LineSpan) :
    runInvocation call fuel f args dict span s =
      (do
        let r ← runLines call fuel (if f.signature.flags.abort then .abort else .resume)
          span.moves f.body span.range.length span.range.first none {}
        reportLast r.2
        return r.1.getD (.integer 0) : Interp Value) (s₁.ready span.range dict) := by
  rw [runInvocation_eq]
  exact Interp.bind_of_value (prepare_of_bound hbind hframes dict span.range) _

/-- An invocation that has visited its lines has a value, and shows the last problem. -/
theorem runInvocation_of_visits {call : Caller} {fuel : Nat} {f : Function} {args : List Value}
    {dict : Option DictRef} {range : LineRange} {s s₁ t : State} {g : Frame} {gs : List Frame}
    {runs : List BodyRun} (hbind : bindArguments call f.signature args s = (.value (), s₁))
    (hframes : s₁.frames = g :: gs)
    (hvisits : Visits call fuel (if f.signature.flags.abort then .abort else .resume) f.body
      (s₁.ready range dict) (List.range' range.first range.length) runs t) :
    runInvocation call fuel f args dict ⟨range, true⟩ s =
      (.value (BodyRun.result runs),
        { t with session := t.session.report (BodyRun.lastProblem call fuel
            (if f.signature.flags.abort then .abort else .resume) f.body runs) }) := by
  rw [runInvocation_of_bound hbind hframes]
  show (runLines call fuel _ true f.body range.length range.first none {}).andThen _ _ = _
  simp only [Interp.andThen, runLines_of_visits hvisits, Option.or_none]
  show (Outcome.value _, State.mk (t.session.report _) t.editor) = _
  rw [last_foldl_add, Option.or_none]
  rfl

/-- The lines of the call are arguments of the body. -/
theorem State.lookup_lines {s t : State} {range : LineRange} {dict : Option DictRef} {g : Frame}
    {gs : List Frame} (hframes : s.frames = g :: gs) (ht : t.frames = (s.ready range dict).frames) :
    t.lookup ⟨some .arguments, "firstline"⟩ = some (.integer (Decimal.clamp range.first)) ∧
      t.lookup ⟨some .arguments, "lastline"⟩ = some (.integer (Decimal.clamp range.last)) := by
  have hready : t.session.vars.frames =
      ((g.bind "firstline" (.integer (Decimal.clamp range.first))).bind "lastline"
        (.integer (Decimal.clamp range.last))) :: gs :=
    ht.trans ((Variables.frames_bindSelf _ dict).trans (Variables.frames_bindLines hframes range))
  simp only [State.lookup, Variables.get?, Variables.frame?, hready, List.head?_cons,
    Option.bind_some, Frame.bind]
  refine ⟨?_, Dict.get?_insert_self _ _ _⟩
  rw [Dict.get?_insert_ne _ _ (by decide), Dict.get?_insert_self]

/-! ### Calls with a range -/

/-- The call of a registered function is an invocation of it. -/
theorem callFunction_of_registered {n : Nat} {s : State} {name : String} {f : DefinedFunction}
    (hf : s.session.functions.get? name = some f) (args : List Value) (site : CallSite) :
    callFunction (n + 1) name args site s = invoke (callFunction n) n f args site s := by
  have hcallee : Callee.ofName s name = .user f := by
    unfold Callee.ofName
    rw [hf]
  show (Callee.ofName s name).enter (callFunction n) n name args site s = _
  rw [hcallee]
  rfl

/-- A registered function whose call is not refused runs in a frame of its own. -/
theorem callFunction_of_accepted {n : Nat} {s : State} {name : String} {f : DefinedFunction}
    {args : List Value} {site : CallSite} (hf : s.session.functions.get? name = some f)
    (haccepted : checkCall s f.function.signature args site = .ok ()) {span : LineSpan}
    (hspan : LineSpan.ofCall f.function.signature.flags site.range s.currentLine = span) :
    callFunction (n + 1) name args site s =
      ((runInvocation (callFunction n) n f.function args site.dict span (s.enter f)).1,
        (runInvocation (callFunction n) n f.function args site.dict span (s.enter f)).2.leave) := by
  rw [callFunction_of_registered hf, invoke_of_accepted haccepted, hspan]
  rfl

/-- A registered function that is called with a range for which it asks, and is not refused. -/
theorem callFunction_of_range {n : Nat} {s : State} {name : String} {f : DefinedFunction}
    {args : List Value} {site : CallSite} {range : LineRange}
    (hf : s.session.functions.get? name = some f)
    (hperLine : f.function.signature.flags.perLine = true) (hrange : site.range = some range)
    (haccepted : checkCall s f.function.signature args site = .ok ()) :
    callFunction (n + 1) name args site s =
      ((runInvocation (callFunction n) n f.function args site.dict ⟨range, true⟩ (s.enter f)).1,
        (runInvocation (callFunction n) n f.function args site.dict ⟨range, true⟩
          (s.enter f)).2.leave) := by
  refine callFunction_of_accepted hf haccepted ?_
  rw [LineSpan.ofCall, hperLine, hrange]
  rfl

theorem Session.messages_report (s : Session) (problem : Option Diagnostic) :
    (s.report problem).messages.toList =
      s.messages.toList ++ (problem.map fun d => (⟨d.message, true⟩ : Message)).toList := by
  cases problem with
  | none => exact (List.append_nil _).symm
  | some d => exact Array.toList_push

/-- A call has run a body once for each line from `first` to `last`, beginning in the state
`ready`; it has left the state `t` after the last run, and this is what has become of it. -/
structure RunsPerLine (call : Caller) (fuel : Nat) (policy : BodyPolicy) (body : List Statement)
    (first last : Nat) (ready : State) (runs : List BodyRun) (t : State)
    (result : Outcome Value × State) : Prop where
  /-- The body is run for the lines in their order, each time in the state that the run before
  has left, but for the cursor. -/
  visits : Visits call fuel policy body ready (List.range' first (last - first + 1)) runs t
  length : runs.length = last - first + 1
  /-- The cursor is put on the line as far as the text has it. -/
  cursor : ∀ p ∈ (List.range' first (last - first + 1)).zip runs,
    p.2.start.editor.cursor.line = min (p.1 - 1) (p.2.start.editor.buffer.lineCount - 1)
  /-- The lines of the call are arguments of each run. -/
  arguments : ∀ run ∈ runs, ∃ i j : Int64, i.toInt = first ∧ j.toInt = last ∧
    run.start.lookup ⟨some .arguments, "firstline"⟩ = some (.integer i) ∧
    run.start.lookup ⟨some .arguments, "lastline"⟩ = some (.integer j)
  value : result.1 = .value (BodyRun.result runs)
  /-- At the end the last problem of all runs is shown, and the frame of the call is gone. -/
  finish : result.2 = State.leave
    { t with session := t.session.report (BodyRun.lastProblem call fuel policy body runs) }
  /-- There is one message more, if any run had a problem. -/
  messages : result.2.session.messages.toList = t.session.messages.toList ++
    ((BodyRun.lastProblem call fuel policy body runs).map fun d => ⟨d.message, true⟩).toList

/-- **A function that asks for the range of its call runs once for each line of it.**  The call
is one that is not refused, its arguments can be bound, and no run of the body that comes up is
cut short by an error; what a run returns, and which problems it notes, is left open, and so is
what the function does about problems.

Then the body is run for the lines of the range in their order.  Each run starts in the state
that the one before has left, but for the cursor, which is put on the line as far as the text
has it, and the lines of the call are its arguments.  The call has a value: what the last run
returned that returned something, or else 0.  At the end the last problem of all runs is shown,
if there is one, and the frame of the call is gone. -/
theorem callFunction_visits_lines {n : Nat} {s s₁ : State} {name : String} {f : DefinedFunction}
    {args : List Value} {site : CallSite} {first last : Nat}
    (hf : s.session.functions.get? name = some f)
    (hperLine : f.function.signature.flags.perLine = true)
    (hrange : site.range = some ⟨first, last⟩) (horder : first ≤ last) (hlast : last < 2 ^ 63)
    (haccepted : checkCall s f.function.signature args site = .ok ())
    (hbind : bindArguments (callFunction n) f.function.signature args (s.enter f) =
      (.value (), s₁)) :
    let policy : BodyPolicy := if f.function.signature.flags.abort then .abort else .resume
    let ready := s₁.ready ⟨first, last⟩ site.dict
    NeverCut (callFunction n) n policy f.function.body ready first (last - first + 1) →
    ∃ runs t, RunsPerLine (callFunction n) n policy f.function.body first last ready runs t
      (callFunction (n + 1) name args site s) := by
  intro policy ready hruns
  have hcall := confined_callFunction n
  obtain ⟨g, gs, hframes⟩ := exists_frame_of_bound hcall hbind
  obtain ⟨runs, t, hvisits⟩ := exists_visits hruns
  have hlength : (⟨first, last⟩ : LineRange).length = last - first + 1 :=
    Nat.sub_add_comm horder
  have hrun : callFunction (n + 1) name args site s = _ :=
    callFunction_of_range hf hperLine hrange haccepted
  rw [runInvocation_of_visits hbind hframes (hlength ▸ hvisits)] at hrun
  rw [hrun]
  exact ⟨runs, t,
    { visits := hvisits
      length := by rw [hvisits.length_runs, List.length_range']
      cursor := hvisits.cursor_start
      arguments := fun run hrun =>
        have ⟨hfirstline, hlastline⟩ := State.lookup_lines hframes (hvisits.frames hcall run hrun)
        ⟨_, _, Decimal.toInt_clamp_of_lt (Nat.lt_of_le_of_lt horder hlast),
          Decimal.toInt_clamp_of_lt hlast, hfirstline, hlastline⟩
      value := rfl
      finish := rfl
      messages := Session.messages_report _ _ }⟩

/-- A state in which one function is registered, by the name `F`, and may not call itself. -/
def State.knowing (f : DefinedFunction) : State where
  session :=
    { (default : Session) with
      vars := .initial
      functions := ⟨Dict.empty.insert "F" f, .empty⟩
      settings := Settings.empty.declareAll [Catalogue.bounded "maxfuncdepth" "mfd" 1 1 100] }
  editor := default

/-- A function with a stray `break`, which is called for three lines: it runs three times, and
the problem is shown once. -/
theorem callFunction_visits_lines_of_stray_break :
    let body : List Statement := [.breakLoop, .leave none]
    let f : DefinedFunction := ⟨⟨{ Signature.named "F" with flags.perLine := true }, body⟩, none⟩
    let site : CallSite := { range := some ⟨1, 3⟩ }
    ∃ s : State, s.session.functions.get? "F" = some f ∧
      checkCall s f.function.signature [] site = .ok () ∧
      bindArguments (callFunction 1) f.function.signature [] (s.enter f) =
        (.value (), s.enter f) ∧
      (∀ t : State, ∃ v ds u, runBody (callFunction 1) 1 .resume body {} t = ((.value v, ds), u)) ∧
      ∃ runs t, Visits (callFunction 1) 1 .resume body ((s.enter f).ready ⟨1, 3⟩ none) [1, 2, 3]
          runs t ∧
        runs.length = 3 ∧
        ∃ t', callFunction 2 "F" [] site s = (.value (.integer 0), t') ∧
          t'.session.messages.toList =
            [⟨"E587: :break without :while or :for: break", true⟩] := by
  intro body f site
  let s : State := .knowing f
  have hf : s.session.functions.get? "F" = some f := rfl
  have haccepted : checkCall s f.function.signature [] site = .ok () := rfl
  have hbind : bindArguments (callFunction 1) f.function.signature [] (s.enter f) =
      (.value (), s.enter f) := rfl
  have hruns (t : State) :
      ∃ v ds u, runBody (callFunction 1) 1 .resume body {} t = ((.value v, ds), u) :=
    ⟨_, _, _, rfl⟩
  obtain ⟨runs, t, hcall⟩ :=
    callFunction_visits_lines hf rfl rfl (by decide) (by decide) haccepted hbind
      fun k _ runs t _ => hruns (t.atLine (1 + k))
  exact ⟨s, hf, haccepted, hbind, hruns, runs, t, hcall.visits, hcall.length,
    (callFunction 2 "F" [] site s).2, rfl, rfl⟩

end ModalScript
