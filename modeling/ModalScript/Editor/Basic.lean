/-
The editor a script works on: a buffer and a cursor.

Lines and columns are counted from 0 here; a script counts lines from 1.
-/
import ModalScript.Editor.Buffer
import ModalScript.Editor.Id

namespace ModalScript

/-- The place of the cursor. -/
structure Cursor where
  line : Nat
  column : Nat
  deriving DecidableEq, Inhabited

/-- The cursor at the start of a line, or of the last line if there are fewer. -/
def Cursor.toLine (line lineCount : Nat) : Cursor :=
  ⟨min line (lineCount - 1), 0⟩

/-- An editor. -/
structure Editor where
  id : EditorId
  buffer : Buffer
  cursor : Cursor
  /-- The file the text was read from. -/
  path : Option String
  deriving DecidableEq, Inhabited

namespace Editor

/-- The editor that holds a text and belongs to no file. -/
def ofString (id : EditorId) (s : String) : Editor :=
  { id := id, buffer := Buffer.ofString s, cursor := ⟨0, 0⟩, path := none }

/-- The editor that holds the contents of a file, unless they are no UTF-8 text. -/
def ofFile? (id : EditorId) (path : String) (contents : ByteArray) : Option Editor :=
  (String.fromUTF8? contents).map fun s => { ofString id s with path := some path }

/-- Moves the cursor to the start of a line, or of the last line if there are fewer. -/
def goTo (e : Editor) (line : Nat) : Editor :=
  { e with cursor := .toLine line e.buffer.lineCount }

/-- The cursor moved into the text: to the last line if it stands below, and to the end of
its line if it stands to the right of it. -/
def clampCursor (e : Editor) : Editor :=
  let line := min e.cursor.line (e.buffer.lineCount - 1)
  { e with cursor := ⟨line, min e.cursor.column (e.buffer.lineLength line)⟩ }

/-- Deletes lines and puts the cursor on the line that follows them. -/
def deleteLines (e : Editor) (first last : Nat) : Editor :=
  clampCursor
    { e with buffer := e.buffer.deleteLines first last, cursor := ⟨first, e.cursor.column⟩ }

end Editor

end ModalScript
