/-
The classifier that a keyword list makes: which characters belong to words.

Tokens are kept with the last one first, and the first kept token that covers a character
decides, so a later token of the list overrides an earlier one.  Characters from U+0100 on
always belong to words.
-/
import ModalScript.Keyword.Token

namespace ModalScript

/-- A keyword list that has been read, last token first. -/
structure KeywordClassifier where
  tokens : List KeywordToken
  deriving DecidableEq, Inhabited

namespace KeywordClassifier

/-- The classifier of a list of tokens.  One bad token refuses the whole list. -/
def ofTokens (tokens : List String) : Except KeywordError KeywordClassifier :=
  (tokens.mapM KeywordToken.parse).map fun ts => ⟨ts.reverse⟩

/-- The classifier that a text writes. -/
def parse (s : String) : Except KeywordError KeywordClassifier :=
  ofTokens (splitTokens s)

/-- Whether a character belongs to words. -/
def isKeyword (k : KeywordClassifier) (c : Char) : Bool :=
  if 0x100 ≤ c.toNat then true
  else
    match k.tokens.find? fun t => t.coverage.contains c.toNat with
    | some t => !t.excludes
    | none => false

/-- The tokens in the order in which they were given. -/
def tokenTexts (k : KeywordClassifier) : List String :=
  (k.tokens.map (·.text)).reverse

/-- The text of the list. -/
def text (k : KeywordClassifier) : String :=
  SettingValue.joinTokens k.tokenTexts

/-! ### Character classes for searching -/

/-- A code point as it stands in a search pattern, with a backslash where it would have a
meaning of its own. -/
def escapedCodePoint (n : Nat) : List Char :=
  let c := Char.ofNat n
  if c ∈ "\\^$.|?*+()[]\x7b\x7d-".toList then ['\\', c] else [c]

/-- The pattern of what a token covers. -/
def coveragePattern : Coverage → List Char
  | .letters => ['\\', 'p', '\x7b', 'L', '\x7d']
  | .range low high =>
    if low = high then escapedCodePoint low
    else '[' :: escapedCodePoint low ++ '-' :: escapedCodePoint high ++ [']']

/-- One pattern for each token, in the order in which they decide.  Exclusion is not
expressed: the pattern of such a token is what it excludes. -/
def patterns (k : KeywordClassifier) : List String :=
  k.tokens.map fun t => String.ofList (coveragePattern t.coverage)

end KeywordClassifier

end ModalScript
