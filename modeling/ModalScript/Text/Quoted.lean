/-
Single-quoted text: the form in which a script writes a string.

Inside the quotes a quote is written twice and every other character once, so
the written form determines the text.
-/

namespace ModalScript.Text

/-- Each quote twice, every other character once. -/
def doubleQuotes (cs : List Char) : List Char :=
  cs.flatMap fun c => if c = '\'' then ['\'', '\''] else [c]

/-- The text between single quotes, the quotes in it doubled. -/
def quoted (cs : List Char) : List Char :=
  '\'' :: doubleQuotes cs ++ ['\'']

end ModalScript.Text
