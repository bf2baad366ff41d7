/-
The identity of an editor.

Everything that belongs to one editor, its variables and its own setting values, is
filed under an `EditorId`.
-/

namespace ModalScript

/-- The identity of an editor. -/
structure EditorId where
  number : Nat
  deriving DecidableEq, Inhabited

namespace EditorId

/-- The name under which an editor is shown. -/
def name (id : EditorId) : String :=
  "editor#" ++ id.number.repr

end EditorId

end ModalScript
