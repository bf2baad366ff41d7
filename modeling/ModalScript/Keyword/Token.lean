/-
Tokens of a keyword list, the text that says which characters belong to words.

A list is written with commas between its tokens; a comma at the start of a token or right
after a dash stands for itself.  `splitTokens` cuts a text into tokens, and
`KeywordToken.parse` reads one token: an optional `^` for exclusion, and then `@` for all
letters, one character or code point, or two of them with a dash between.
-/
import ModalScript.Decimal.Numeral
import ModalScript.Setting.Basic

namespace ModalScript

/-! ### Cutting a text into tokens -/

/-- Where the cutting of a text stands within a token. -/
inductive TokenPlace where
  /-- Before the first character that counts; a single `^` does not. -/
  | start
  | inside
  /-- Right behind a dash that may join the ends of a range. -/
  | afterDash
  deriving DecidableEq

/-- The place behind a character that is taken into a token holding `token` so far. -/
def TokenPlace.next (place : TokenPlace) (token : List Char) (c : Char) : TokenPlace :=
  if c = '^' ∧ token = [] then place
  else if c = '-' ∧ place ≠ .start then .afterDash
  else .inside

/-- The tokens of the rest of a text, where `token` has been read so far (last character
first). -/
def splitTokensFrom (place : TokenPlace) (token : List Char) : List Char → List (List Char)
  | [] => if token.isEmpty then [] else [token.reverse]
  | c :: cs =>
    if c = ',' ∧ place = .inside then token.reverse :: splitTokensFrom .start [] cs
    else splitTokensFrom (place.next token c) (c :: token) cs

/-- The tokens of a text. -/
def splitTokens (s : String) : List String :=
  (splitTokensFrom .start [] s.toList).map String.ofList

/-! ### Reading a token -/

/-- What is wrong with a token. -/
inductive KeywordError where
  | invalidToken (token : String)
  | emptyToken
  deriving DecidableEq

/-- The text of a token error. -/
def KeywordError.message : KeywordError → String
  | .invalidToken token => "E474: Invalid argument: " ++ token
  | .emptyToken => "E474: Invalid argument: empty keyword token"

/-- The characters that a token speaks of. -/
inductive Coverage where
  | letters
  /-- The code points from `low` to `high`. -/
  | range (low high : Nat)
  deriving DecidableEq

/-- Whether a code point below 256 is a letter. -/
def isLatinLetter (n : Nat) : Bool :=
  (0x41 ≤ n && n ≤ 0x5A) || (0x61 ≤ n && n ≤ 0x7A) || n == 0xAA || n == 0xB5 || n == 0xBA ||
    (0xC0 ≤ n && n ≤ 0xD6) || (0xD8 ≤ n && n ≤ 0xF6) || (0xF8 ≤ n && n ≤ 0xFF)

/-- Whether a code point below 256 is covered. -/
def Coverage.contains : Coverage → Nat → Bool
  | .letters, n => isLatinLetter n
  | .range low high, n => low ≤ n && n ≤ high

/-- A token that has been read. -/
structure KeywordToken where
  text : String
  excludes : Bool
  coverage : Coverage
  deriving DecidableEq

namespace KeywordToken

/-- The end of a range: one to three digits are a code point, and any other single character
stands for itself. -/
def bound? (cs : List Char) : Option Nat :=
  if cs ≠ [] ∧ cs.length ≤ 3 ∧ cs.all Char.isDigit then some (Nat.ofDigitChars 10 cs 0)
  else
    match cs with
    | [c] => some c.toNat
    | _ => none

/-- The two sides of the first dash that has something on both. -/
def dashed? : List Char → Option (List Char × List Char)
  | [] => none
  | c :: cs =>
    match cs with
    | '-' :: d :: rest => some ([c], d :: rest)
    | _ => (dashed? cs).map fun p => (c :: p.1, p.2)

/-- What a token without its `^` covers. -/
def coverage? (cs : List Char) : Option Coverage :=
  if cs = ['@'] then some .letters
  else
    match dashed? cs with
    | some (front, back) => do
      let low ← bound? front
      let high ← bound? back
      if low ≤ high then some (.range low high) else none
    | none => (bound? cs).map fun n => .range n n

/-- A leading `^` is set apart if something follows it. -/
def splitCaret : List Char → Bool × List Char
  | '^' :: c :: cs => (true, c :: cs)
  | cs => (false, cs)

/-- Reads one token. -/
def parse (token : String) : Except KeywordError KeywordToken :=
  let (excludes, body) := splitCaret token.toList
  if body = [] then .error .emptyToken
  else
    match coverage? body with
    | some coverage => .ok { text := token, excludes, coverage }
    | none => .error (.invalidToken token)

end KeywordToken

end ModalScript
