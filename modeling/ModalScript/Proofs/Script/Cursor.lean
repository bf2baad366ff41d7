/-
The cursor and the lines that commands work on.

Whatever runs, and wherever a run has come, the cursor stands in the text (`Effect.inBounds`), as
a run does nothing to an editor but move the cursor and delete lines.

Scripts count lines from 1 and the buffer counts them from 0, so that `print` and `delete` take 1
from the numbers of lines.  The check of a command line sees to it that the lines of a range are
lines of the buffer (`LineRange.Inside`); where no range is given the line of the cursor is one.
Then no number of a line is 0 or exceeds the number of lines, which is the only bound that a
number of the commands may have to keep to, and a count, however large, is cut off there.

Main result: `Editor.commands_in_bounds`.
-/
import ModalScript.Proofs.Editor.Bounds
import ModalScript.Proofs.Script.Confined

namespace ModalScript

/-! ### Runs -/

/-- Every effect keeps the cursor in the text. -/
theorem Effect.inBounds {l : Layer} {s t : State} (h : Effect l s t) (hs : s.editor.InBounds) :
    t.editor.InBounds := by
  induction h with
  | trans _ _ ih ih' => exact ih' (ih hs)
  | statement _ ih | invocation _ ih => exact ih hs
  | call name _ _ _ ih =>
    -- frames come and go with the variables only
    exact ih hs
  | goTo s line => exact s.editor.inBounds_goTo line
  | deleteLines s first last => exact s.editor.inBounds_deleteLines first last
  | refl | heap | store | remove | settings | define | deleteFunction | echo | reportError
  | bindArgument => exact hs

namespace Editor

/-- Editors that come about from a text by moving the cursor, by deleting lines, and by what runs
on them in any session, to its end or up to some point. -/
inductive Reachable : Editor → Prop
  | ofString (id : EditorId) (s : String) : Reachable (ofString id s)
  | ofFile {id : EditorId} {path : String} {contents : ByteArray} {e : Editor} :
      ofFile? id path contents = some e → Reachable e
  | goTo {e : Editor} (line : Nat) : Reachable e → Reachable (e.goTo line)
  | deleteLines {e : Editor} (first last : Nat) :
      Reachable e → Reachable (e.deleteLines first last)
  | script {e : Editor} (n : Nat) (script : List Statement) (session : Session) :
      Reachable e → Reachable (runScript n script ⟨session, e⟩).2.editor
  | statement {e : Editor} (n fuel : Nat) (st : Statement) (session : Session) :
      Reachable e → Reachable (st.execute (callFunction n) fuel ⟨session, e⟩).2.editor
  | expression {e : Editor} (n : Nat) (x : Expr) (session : Session) :
      Reachable e → Reachable (x.evaluate (callFunction n) ⟨session, e⟩).2.editor
  | call {e : Editor} (n : Nat) (name : String) (args : List Value) (site : CallSite)
      (session : Session) :
      Reachable e → Reachable (callFunction n name args site ⟨session, e⟩).2.editor
  /-- A run of statements comes to a statement. -/
  | comes {e : Editor} {n fuel : Nat} {mode : Mode} {sts : List Statement} {session : Session}
      {st : Statement} {t : State} : Reachable e →
      Comes (callFunction n) fuel Anything mode sts ⟨session, e⟩ st t → Reachable t.editor
  /-- A function has got its arguments, and its body comes to a statement. -/
  | inside {e : Editor} {n fuel : Nat} {f : Function} {args : List Value} {dict : Option DictRef}
      {span : LineSpan} {session : Session} {u : State} {st : Statement} {t : State} :
      Reachable e →
      prepare (callFunction n) f args dict span.range ⟨session, e⟩ = (.value (), u) →
      f.Comes (callFunction n) fuel Anything span u st t → Reachable t.editor

theorem Reachable.inBounds {e : Editor} (h : e.Reachable) : e.InBounds := by
  -- every command lies within the effects, and so do the points of a run between them
  have hcommands (n fuel : Nat) (mode : Mode) (sts : List Statement) (s : State) :
      Holds (callFunction n) fuel (·.Obeys (callFunction n) (Effect .statement)) mode sts s :=
    fun c t _ => c.confined_execute (confined_callFunction n) t
  induction h with
  | ofString id s => exact inBounds_start id _ _
  | ofFile h =>
    obtain ⟨s, -, rfl⟩ := Option.map_eq_some_iff.mp h
    exact inBounds_start _ _ _
  | goTo line _ _ => exact inBounds_goTo _ line
  | deleteLines first last _ _ => exact inBounds_deleteLines _ first last
  | script n script session _ ih => exact (confined_runScript n script ⟨session, _⟩).inBounds ih
  | statement n fuel st session _ ih =>
    exact (st.confined_execute (confined_callFunction n) fuel ⟨session, _⟩).inBounds ih
  | expression n x session _ ih =>
    exact (x.confined_evaluate (confined_callFunction n) ⟨session, _⟩).inBounds ih
  | call n name args site session _ ih =>
    exact (confined_callFunction n name args site ⟨session, _⟩).inBounds ih
  | @comes e n fuel mode sts session st t _ hcomes ih =>
    exact ((carries_effect (confined_callFunction n)).comes
      (fun mode sts s _ => hcommands n fuel mode sts s) hcomes).inBounds ih
  | @inside e n fuel f args dict span session u st t _ hu hcomes ih =>
    have hcall := confined_callFunction n
    have hprepared := Interp.preparing_confined.prepare hcall.related f args dict span.range
      ⟨session, e⟩
    rw [hu] at hprepared
    exact ((carries_effect hcall).linesCome
      (fun mode sts s _ => hcommands n fuel mode sts s) hcomes).inBounds (hprepared.inBounds ih)

end Editor

/-! ### Lines of a command -/

/-- The lines of the range are lines of the buffer, counted from 1. -/
structure LineRange.Inside (r : LineRange) (b : Buffer) : Prop where
  first : 1 ≤ r.first
  ordered : r.first ≤ r.last
  last : r.last ≤ b.lineCount

theorem LineRange.Inside.exists_texts {r : LineRange} {b : Buffer} (h : r.Inside b) :
    ∃ texts : List String,
      (List.range' r.first r.length).map (fun n => b.line? (n - 1)) = texts.map some ∧
        (List.range' r.first r.length).map (fun n => (b.line? (n - 1)).getD "") = texts := by
  refine ⟨_, ?_, rfl⟩
  rw [List.map_map]
  refine List.map_congr_left fun n hn => ?_
  have hbounds : r.first ≤ n ∧ n < r.first + (r.last + 1 - r.first) := List.mem_range'_1.mp hn
  obtain ⟨hfirst, hordered, hlast⟩ := h
  obtain ⟨text, htext⟩ := @Buffer.exists_line b (n - 1) (by omega)
  rw [Function.comp_apply, htext, Option.getD_some]

namespace Command

variable {s : State} {line : CommandLine} {name : String} {argument : Need} {access : Access}

/-- The command line passes the check. -/
def Accepted (c : Command) (s : State) : Prop :=
  validate c.name c.descriptor c.line s.editor.buffer.lineCount = .ok ()

theorem execute_of_accepted {c : Command} (h : c.Accepted s) (call : Caller) :
    c.execute call s = c.process call s := by
  unfold execute
  rw [show validate c.name c.descriptor c.line s.editor.buffer.lineCount = .ok () from h]

/-- A range that passes the check lies in the buffer. -/
theorem inside_of_validate {r : LineRange} {lineCount : Nat} {d : Descriptor}
    (hneed : d.range = .optional) (hr : line.range = some r)
    (h : validate name d line lineCount = .ok ()) :
    1 ≤ r.first ∧ r.first ≤ r.last ∧ r.last ≤ lineCount := by
  -- the range is checked before all else
  have hrange : validateRange name .optional (some r) lineCount = .ok () := by
    rw [validate, hneed, hr] at h
    cases hrange : validateRange name .optional (some r) lineCount with
    | ok => rfl
    | error e =>
      rw [hrange] at h
      cases h
  have hcheck : (if r.first = 0 ∨ r.isEmpty ∨ lineCount < r.last then
      .error (.statement "E16: Invalid range") else .ok () : Except ExecError Unit) = .ok () :=
    hrange
  split at hcheck
  · cases hcheck
  · next hgood =>
    rw [not_or, not_or, LineRange.isEmpty, decide_eq_true_iff] at hgood
    omega

/-- Where a range may be given, the lines that an accepted command is for are lines of the
buffer: those of the range, or that of the cursor. -/
theorem Accepted.inside_targetRange {c : Command} (h : c.Accepted s)
    (hneed : c.descriptor.range = .optional) (hs : s.editor.InBounds) :
    (targetRange s c.line).Inside s.editor.buffer := by
  cases hrange : c.line.range with
  | none =>
    rw [targetRange, hrange, Option.getD_none]
    exact ⟨Nat.le_add_left 1 _, Nat.le_refl _, hs.line⟩
  | some r =>
    rw [targetRange, hrange, Option.getD_some]
    obtain ⟨hfirst, hordered, hlast⟩ := inside_of_validate hneed hrange h
    exact ⟨hfirst, hordered, hlast⟩

/-! ### Showing lines -/

/-- What `print` shows are texts of lines of the buffer, and the cursor is put on the last of
these lines. -/
structure PrintsInside (call : Caller) (line : CommandLine) (s : State) : Prop where
  range : (targetRange s line).Inside s.editor.buffer
  shown : ∃ texts : List String,
    (List.range' (targetRange s line).first (targetRange s line).length).map
      (fun n => s.editor.buffer.line? (n - 1)) = texts.map some ∧
    execute call (.text .print line) s =
      (.value (),
        { session := texts.foldl Session.echo s.session
          editor := { s.editor with cursor := ⟨(targetRange s line).last - 1, 0⟩ } })

/-- So it is with each `print` that passes the check. -/
theorem printsInside (hs : s.editor.InBounds) (h : Accepted (.text .print line) s)
    (call : Caller) : PrintsInside call line s := by
  have hrange : (targetRange s line).Inside s.editor.buffer := h.inside_targetRange rfl hs
  obtain ⟨texts, htexts, hshown⟩ := hrange.exists_texts
  refine ⟨hrange, texts, htexts, ?_⟩
  have hgoTo : s.editor.goTo ((targetRange s line).last - 1) =
      { s.editor with cursor := ⟨(targetRange s line).last - 1, 0⟩ } := by
    obtain ⟨hfirst, hordered, hlast⟩ := hrange
    exact Editor.goTo_of_lt (by omega)
  rw [execute_of_accepted h]
  show printLines line s = _
  unfold printLines
  simp only [hshown, hgoTo]

/-! ### Deleting lines -/

/-- What `delete` takes away are lines of the buffer, and the cursor stands in what is left. -/
structure DeletesInside (call : Caller) (line : CommandLine) (count? : Option Nat) (s : State) :
    Prop where
  target : (targetRange s line).Inside s.editor.buffer
  range : (deletedRange s line count?).Inside s.editor.buffer
  /-- A count is at least 1, and it is cut off at the end of the buffer, whether or not the sum
  with the line that it starts from has been cut off before at some greater number. -/
  count : ∀ n, count? = some n → 1 ≤ n ∧ ∀ most, s.editor.buffer.lineCount ≤ most →
    (deletedRange s line count?).last =
      min (min ((targetRange s line).last + (n - 1)) most) s.editor.buffer.lineCount
  deleted : (execute call (.text .delete line) s).1 = .value () ∧
    (execute call (.text .delete line) s).2.session = s.session ∧
    (execute call (.text .delete line) s).2.editor.buffer.chars =
      (s.editor.buffer.pieces.take ((deletedRange s line count?).first - 1)).flatten ++
        (s.editor.buffer.pieces.drop (deletedRange s line count?).last).flatten
  pieces : (deletedRange s line count?).last ≤ s.editor.buffer.pieces.length
  cursor : (execute call (.text .delete line) s).2.editor.InBounds

theorem lineCount?_pos {count? : Option Nat} {n : Nat} (h : lineCount? line = .ok count?)
    (hn : count? = some n) : 1 ≤ n := by
  unfold lineCount? at h
  simp only at h
  split at h
  · cases h
    cases hn
  · split at h
    · next hfilter =>
      cases h
      cases hn
      have hpos := (Option.filter_eq_some_iff.mp hfilter).2
      rw [Bool.and_eq_true, decide_eq_true_iff] at hpos
      exact hpos.1
    · cases h

/-- A number that fits into a machine word and is not 0 is a count. -/
theorem lineCount?_of_natural? {cs : List Char} {n : Nat} (hline : line.trimmed = cs)
    (hsign : ∀ rest, cs ≠ '+' :: rest) (hread : Decimal.natural? 10 cs = some n) (hpos : 0 < n)
    (hfits : n < 0x10000000000000000) : lineCount? line = .ok (some n) := by
  have hne : cs ≠ [] := by
    rintro rfl
    cases hread
  have hfilter : (some n).filter (fun n => 0 < n && n < 0x10000000000000000) = some n := by
    rw [Option.filter_some, decide_eq_true hpos, decide_eq_true hfits]
    rfl
  unfold lineCount?
  simp only [hline, if_neg hne, hread, hfilter]

/-- With a count the range starts from the last line that was meant, and is cut off at the end of
the buffer. -/
theorem inside_deletedRange {count? : Option Nat}
    (h : (targetRange s line).Inside s.editor.buffer) :
    (deletedRange s line count?).Inside s.editor.buffer := by
  cases count? with
  | none => exact h
  | some n =>
    obtain ⟨hfirst, hordered, hlast⟩ := h
    refine ⟨hfirst.trans hordered, ?_, Nat.min_le_right _ _⟩
    exact Nat.le_min.mpr ⟨Nat.le_add_right _ _, hlast⟩

/-- So it is with each `delete` that passes the check and whose count can be read. -/
theorem deletesInside (hs : s.editor.InBounds) (h : Accepted (.text .delete line) s)
    {count? : Option Nat} (hcount : lineCount? line = .ok count?) (call : Caller) :
    DeletesInside call line count? s := by
  have htarget : (targetRange s line).Inside s.editor.buffer := h.inside_targetRange rfl hs
  have hrange := @inside_deletedRange s line count? htarget
  have hexecute : execute call (.text .delete line) s =
      (.value (),
        { s with
          editor := s.editor.deleteLines ((deletedRange s line count?).first - 1)
            ((deletedRange s line count?).last - 1) }) := by
    rw [execute_of_accepted h]
    show deleteLines line s = _
    unfold deleteLines
    rw [hcount]
  refine ⟨htarget, hrange, ?_, ?_, ?_, ?_⟩
  · rintro n rfl
    refine ⟨lineCount?_pos hcount rfl, fun most hmost => ?_⟩
    -- what is cut off at some greater number is cut off again at the end of the buffer
    show min _ _ = _
    rw [Nat.min_assoc, Nat.min_eq_right hmost]
  · rw [hexecute]
    refine ⟨rfl, rfl, ?_⟩
    obtain ⟨hfirst, hordered, hlast⟩ := hrange
    -- the buffer counts lines from 0, and the range has a last line
    have hsucc : (deletedRange s line count?).last - 1 + 1 = (deletedRange s line count?).last := by
      omega
    show (s.editor.buffer.deleteLines _ _).chars = _
    rw [Buffer.deleteLines_of_lt (by omega) (by omega), hsucc]
  · exact hrange.last.trans s.editor.buffer.lineCount_le_length_pieces
  · rw [hexecute]
    exact s.editor.inBounds_deleteLines _ _

/-- A count that cannot be read leaves everything as it is. -/
theorem execute_delete_of_error {e : ExecError} (h : Accepted (.text .delete line) s)
    (he : lineCount? line = .error e) (call : Caller) :
    execute call (.text .delete line) s = (.failed e, s) := by
  rw [execute_of_accepted h]
  show deleteLines line s = _
  unfold deleteLines
  rw [he]

end Command

/-- **The cursor stands in the text, and commands keep to the lines of the buffer.**  This holds
of an editor that comes about from any text, however its cursor is moved, its lines are deleted
and scripts are run on it, and within the run of a script too.  So it is true of each `print` and
each `delete` that passes the check, with a range or without and whatever the count is. -/
theorem Editor.commands_in_bounds {e : Editor} (h : e.Reachable) :
    (1 ≤ e.buffer.lineCount ∧ e.cursor.line < e.buffer.lineCount ∧
      e.cursor.column ≤ e.buffer.lineLength e.cursor.line) ∧
    ∀ (session : Session) (call : Caller) (line : CommandLine),
      (Command.Accepted (.text .print line) ⟨session, e⟩ →
        Command.PrintsInside call line ⟨session, e⟩) ∧
      (Command.Accepted (.text .delete line) ⟨session, e⟩ →
        match Command.lineCount? line with
        | .ok count? => Command.DeletesInside call line count? ⟨session, e⟩
        | .error problem =>
          Command.execute call (.text .delete line) ⟨session, e⟩ =
            (.failed problem, ⟨session, e⟩)) := by
  have hbounds := h.inBounds
  refine ⟨⟨hbounds.lines, hbounds.line, hbounds.column⟩, fun session call line =>
    ⟨fun haccepted => Command.printsInside hbounds haccepted call, fun haccepted => ?_⟩⟩
  cases hcount : Command.lineCount? line with
  | ok count? => exact Command.deletesInside hbounds haccepted hcount call
  | error problem => exact Command.execute_delete_of_error haccepted hcount call

/-- An editor that has lost its last line, where the cursor was.  The text ends with a form feed
now, so that there is an empty line for the cursor; and the greatest count that can be given takes
away all lines from the second one on. -/
theorem Editor.commands_in_bounds_of_greatest_count :
    ∃ e : Editor, e.Reachable ∧ e.buffer.text = "one\r\ntwo\x0c" ∧ e.cursor.line = 2 ∧
      (1 ≤ e.buffer.lineCount ∧ e.cursor.line < e.buffer.lineCount ∧
        e.cursor.column ≤ e.buffer.lineLength e.cursor.line) ∧
      Command.PrintsInside (callFunction 0) {} ⟨default, e⟩ ∧
      Command.DeletesInside (callFunction 0) ⟨some ⟨1, 2⟩, false, "18446744073709551615"⟩
        (some 18446744073709551615) ⟨default, e⟩ := by
  have htrimmed : CommandLine.trimmed ⟨some ⟨1, 2⟩, false, "18446744073709551615"⟩ =
      "18446744073709551615".toList := by decide
  have hcount : Command.lineCount? ⟨some ⟨1, 2⟩, false, "18446744073709551615"⟩ =
      .ok (some 18446744073709551615) :=
    Command.lineCount?_of_natural? htrimmed (by simp) (by decide) (by decide) (by decide)
  obtain ⟨e, he, htext, hcursor, hprint, hdelete⟩ :
      ∃ e : Editor, e.Reachable ∧ e.buffer.text = "one\r\ntwo\x0c" ∧ e.cursor.line = 2 ∧
        Command.Accepted (.text .print {}) ⟨default, e⟩ ∧
        Command.Accepted (.text .delete ⟨some ⟨1, 2⟩, false, "18446744073709551615"⟩)
          ⟨default, e⟩ :=
    ⟨_, .deleteLines 2 5 (.goTo 2 (.ofString ⟨0⟩ "one\r\ntwo\x0cthree\n")), rfl, rfl, rfl, rfl⟩
  obtain ⟨hbounds, hcommands⟩ := commands_in_bounds he
  have hdeletes := (hcommands default (callFunction 0)
    ⟨some ⟨1, 2⟩, false, "18446744073709551615"⟩).2
  -- the count is that of a whole machine word
  rw [hcount] at hdeletes
  exact ⟨e, he, htext, hcursor, hbounds, (hcommands default _ _).1 hprint,
    hdeletes hdelete⟩

end ModalScript
