/-
Reading JSON.

`Json.parse` accepts exactly one value with blanks around it and otherwise gives the first
`Fault`: what is wrong, and where.  A fault remembers the text that was left when it was
found and how many bytes beyond that point it lies; `Fault.position` turns this into a line
and a column, both counted in bytes.

Numbers are read the quick way: up to about nineteen significant digits as an integer, then
one multiplication or division by a power of ten.  The result can miss the nearest double
by a little.
-/
import ModalScript.Json.Basic

namespace ModalScript.Json

/-! ### Faults -/

/-- What is wrong with a text. -/
inductive Problem where
  | endInValue
  | endInList
  | endInObject
  | endInString
  | expectedValue
  | expectedIdent
  | expectedColon
  | expectedListEnd
  | expectedObjectEnd
  | keyMustBeString
  | trailingComma
  | trailingCharacters
  | invalidNumber
  | numberOutOfRange
  | invalidEscape
  | unexpectedEndOfHexEscape
  | loneSurrogate
  | controlCharacter
  | recursionLimit
  deriving DecidableEq

/-- The text of a problem. -/
def Problem.message : Problem → String
  | .endInValue => "EOF while parsing a value"
  | .endInList => "EOF while parsing a list"
  | .endInObject => "EOF while parsing an object"
  | .endInString => "EOF while parsing a string"
  | .expectedValue => "expected value"
  | .expectedIdent => "expected ident"
  | .expectedColon => "expected `:`"
  | .expectedListEnd => "expected `,` or `]`"
  | .expectedObjectEnd => "expected `,` or `\x7d`"
  | .keyMustBeString => "key must be a string"
  | .trailingComma => "trailing comma"
  | .trailingCharacters => "trailing characters"
  | .invalidNumber => "invalid number"
  | .numberOutOfRange => "number out of range"
  | .invalidEscape => "invalid escape"
  | .unexpectedEndOfHexEscape => "unexpected end of hex escape"
  | .loneSurrogate => "lone leading surrogate in hex escape"
  | .controlCharacter => "control character (\\u0000-\\u001F) found while parsing a string"
  | .recursionLimit => "recursion limit exceeded"

/-- A problem, and the place `beyond` bytes into the text that was `left`. -/
structure Fault where
  problem : Problem
  left : List Char
  beyond : Nat

/-- What reading a part of a text gives: a result and the text that is left. -/
abbrev Read (α : Type) : Type :=
  α × List Char

/-- A way of reading a part of a text. -/
abbrev Reader (α : Type) : Type :=
  List Char → Except Fault (Read α)

/-- A problem with the character the text starts with. -/
def atNext {α : Type} (problem : Problem) (left : List Char) : Except Fault (Read α) :=
  .error ⟨problem, left, 1⟩

/-- A problem with what has been read last. -/
def atLast {α : Type} (problem : Problem) (left : List Char) : Except Fault (Read α) :=
  .error ⟨problem, left, 0⟩

/-- The number of bytes of a text. -/
def byteLength (cs : List Char) : Nat :=
  (String.ofList cs).utf8ByteSize

/-- The line and column that are reached after so many bytes of a text. -/
def positionFrom (line column : Nat) : Nat → List Char → Nat × Nat
  | 0, _ | _, [] => (line, column)
  | n + 1, c :: cs =>
    if c = '\n' then positionFrom (line + 1) 0 n cs
    else positionFrom line (column + min c.utf8Size (n + 1)) (n + 1 - c.utf8Size) cs

/-- The line of a fault, from 1, and the number of bytes of that line up to the fault. -/
def Fault.position (f : Fault) (text : List Char) : Nat × Nat :=
  positionFrom 1 0 (byteLength text - byteLength f.left + f.beyond) text

/-- A place as it stands behind what is wrong there. -/
def placeText (line column : Nat) : String :=
  " at line " ++ line.repr ++ " column " ++ column.repr

/-- The text of a fault. -/
def Fault.message (f : Fault) (text : List Char) : String :=
  let (line, column) := f.position text
  f.problem.message ++ placeText line column

/-! ### Blanks and words -/

/-- The blanks of JSON. -/
def isBlank (c : Char) : Bool :=
  c == ' ' || c == '\n' || c == '\t' || c == '\r'

/-- The text from its first character that is not blank. -/
def skipBlanks (cs : List Char) : List Char :=
  cs.dropWhile isBlank

/-- Reads the rest of a word that stands for a value. -/
def word (value : Json) : List Char → Reader Json
  | [], cs => .ok (value, cs)
  | _ :: _, [] => atLast .endInValue []
  | e :: es, c :: cs => if c = e then word value es cs else atNext .expectedIdent (c :: cs)

/-! ### Strings -/

/-- The value of a hexadecimal digit. -/
def hexValue? (c : Char) : Option Nat :=
  Decimal.digit? 16 c

/-- The number that four hexadecimal digits write. -/
def hex4 (cs : List Char) : Except Fault (Read Nat) :=
  if byteLength cs < 4 then atLast .endInString []
  else
    match cs with
    | a :: b :: c :: d :: rest =>
      match hexValue? a, hexValue? b, hexValue? c, hexValue? d with
      | some a, some b, some c, some d => .ok (((a * 16 + b) * 16 + c) * 16 + d, rest)
      | _, _, _, _ => .error ⟨.invalidEscape, cs, 4⟩
    | _ => .error ⟨.invalidEscape, cs, 4⟩

/-- The second half of a surrogate pair, and the character of the pair. -/
def lowSurrogate (high : Nat) : Reader Char
  | '\\' :: 'u' :: rest => do
    let (low, rest) ← hex4 rest
    if 0xDC00 ≤ low ∧ low ≤ 0xDFFF then
      return (Char.ofNat ((high - 0xD800) * 1024 + (low - 0xDC00) + 0x10000), rest)
    else atLast .loneSurrogate rest
  | '\\' :: [] | [] => atLast .endInString []
  | '\\' :: rest => atNext .unexpectedEndOfHexEscape rest
  | rest => atNext .unexpectedEndOfHexEscape rest

/-- The character that is written as one or two groups of hexadecimal digits. -/
def unicodeEscape (cs : List Char) : Except Fault (Read Char) := do
  let (n, rest) ← hex4 cs
  if 0xDC00 ≤ n ∧ n ≤ 0xDFFF then atLast .loneSurrogate rest
  else if 0xD800 ≤ n ∧ n ≤ 0xDBFF then lowSurrogate n rest
  else return (Char.ofNat n, rest)

/-- The character that stands after a backslash. -/
def escape : Reader Char
  | [] => atLast .endInString []
  | c :: rest =>
    match c with
    | '"' | '\\' | '/' => .ok (c, rest)
    | 'b' => .ok ('\x08', rest)
    | 'f' => .ok ('\x0c', rest)
    | 'n' => .ok ('\n', rest)
    | 'r' => .ok ('\r', rest)
    | 't' => .ok ('\t', rest)
    | 'u' => unicodeEscape rest
    | _ => atNext .invalidEscape (c :: rest)

/-- The rest of a string up to its closing quote, after the characters `done` (last one
first).  At most `fuel` characters are read; a text's length is always enough. -/
def stringRest : (fuel : Nat) → (done : List Char) → Reader String
  | 0, _, _ | _, _, [] => atLast .endInString []
  | fuel + 1, done, c :: rest =>
    if c = '"' then .ok (String.ofList done.reverse, rest)
    else if c = '\\' then
      match escape rest with
      | .ok (e, rest) => stringRest fuel (e :: done) rest
      | .error f => .error f
    else if c.toNat < 32 then atNext .controlCharacter (c :: rest)
    else stringRest fuel (c :: done) rest

/-- The rest of a string whose opening quote has been read. -/
def stringBody (cs : List Char) : Except Fault (Read String) :=
  stringRest cs.length [] cs

/-! ### Numbers -/

/-- The largest significand that is kept exactly. -/
def significandLimit : Nat :=
  0xFFFFFFFFFFFFFFFF

/-- The largest exponent that is kept exactly. -/
def exponentLimit : Nat :=
  0x7FFFFFFF

/-- Takes digits into a number as long as it stays within the limit. -/
def takeDigits (limit acc : Nat) : List Char → Nat × List Char
  | [] => (acc, [])
  | c :: cs =>
    if c.isDigit ∧ acc * 10 + (c.toNat - 48) ≤ limit then
      takeDigits limit (acc * 10 + (c.toNat - 48)) cs
    else (acc, c :: cs)

/-- Whether a text goes on with a digit. -/
def startsWithDigit : List Char → Bool
  | [] => false
  | c :: _ => c.isDigit

/-- A power of ten that doubles hold. -/
def powerOfTen (n : Nat) : Float :=
  Float.ofScientific 1 false n

/-- x / 10^n, dividing by 10^308 as long as n is larger than that. -/
def divideByPower : (fuel : Nat) → Float → Nat → Float
  | 0, x, _ => x
  | fuel + 1, x, n =>
    if n ≤ 308 then x / powerOfTen n
    else if x == 0.0 then x
    else divideByPower fuel (x / powerOfTen 308) (n - 308)

/-- The double for ± significand · 10^exponent; numbers that are too large are a fault. -/
def scaled (negative : Bool) (significand : Nat) (exponent : Int) (rest : List Char) :
    Except Fault (Read Json) :=
  let x := significand.toUInt64.toFloat
  let signed (y : Float) : Except Fault (Read Json) :=
    .ok (.float (if negative then -y else y), rest)
  if exponent < 0 then signed (divideByPower (exponent.natAbs / 308 + 1) x exponent.natAbs)
  else if exponent ≤ 308 then
    let y := x * powerOfTen exponent.natAbs
    if y.isInf then atLast .numberOutOfRange rest else signed y
  else if x == 0.0 then signed x
  else atLast .numberOutOfRange rest

/-- An exponent kept within 32 bits. -/
def clampExponent (e : Int) : Int :=
  max (-0x80000000) (min e 0x7FFFFFFF)

/-- The digits of an exponent, and the number that it completes. -/
def exponentDigits (negative : Bool) (significand : Nat) (start : Int) (below : Bool) :
    Reader Json
  | [] => atLast .endInValue []
  | c :: cs =>
    if c.isDigit then
      let (e, rest) := takeDigits exponentLimit 0 (c :: cs)
      if startsWithDigit rest then
        if significand ≠ 0 ∧ ¬below then atLast .numberOutOfRange (rest.drop 1)
        else .ok (.float (if negative then -0.0 else 0.0), rest.dropWhile Char.isDigit)
      else
        scaled negative significand (clampExponent (if below then start - e else start + e)) rest
    else atNext .invalidNumber (c :: cs)

/-- The exponent part of a number, after its `e`. -/
def exponent (negative : Bool) (significand : Nat) (start : Int) : Reader Json
  | '+' :: rest => exponentDigits negative significand start false rest
  | '-' :: rest => exponentDigits negative significand start true rest
  | rest => exponentDigits negative significand start false rest

/-- What may follow the digits of a number that is not an integer: an exponent part. -/
def afterDigits (negative : Bool) (significand : Nat) (start : Int) : Reader Json
  | 'e' :: rest | 'E' :: rest => exponent negative significand start rest
  | rest => scaled negative significand start rest

/-- The decimals of a number, after its point.  Decimals that the significand has no room
for are dropped. -/
def decimals (negative : Bool) (significand : Nat) (start : Int) (cs : List Char) :
    Except Fault (Read Json) :=
  let (significand, rest) := takeDigits significandLimit significand cs
  let start := start - (cs.length - rest.length : Nat)
  if startsWithDigit rest then
    afterDigits negative significand start (rest.dropWhile Char.isDigit)
  else if rest.length = cs.length then
    if rest.isEmpty then atLast .endInValue [] else atNext .invalidNumber rest
  else afterDigits negative significand start rest

/-- The integer ± n, or the double nearest to it if it has more than 64 bits or is a
negative zero. -/
def integral (negative : Bool) (n : Nat) : Json :=
  if negative then
    if n = 0 ∨ 0x8000000000000000 < n then .float (-n.toUInt64.toFloat)
    else .integer (Int64.ofInt (-n))
  else if n < 0x8000000000000000 then .integer (Int64.ofNat n) else .float n.toUInt64.toFloat

/-- What follows the digits before the point. -/
def afterWhole (negative : Bool) (significand : Nat) : Reader Json
  | '.' :: rest => decimals negative significand 0 rest
  | 'e' :: rest | 'E' :: rest => exponent negative significand 0 rest
  | rest => .ok (integral negative significand, rest)

/-- What follows so many digits that they do not fit in the significand. -/
def afterLongWhole (negative : Bool) (significand : Nat) (cs : List Char) :
    Except Fault (Read Json) :=
  let rest := cs.dropWhile Char.isDigit
  let start : Int := (cs.length - rest.length : Nat)
  match rest with
  | '.' :: rest => decimals negative significand start rest
  | rest => afterDigits negative significand start rest

/-- A number whose sign has been read. -/
def number (negative : Bool) : Reader Json
  | [] => atLast .endInValue []
  | c :: cs =>
    if c = '0' then
      if startsWithDigit cs then atNext .invalidNumber cs else afterWhole negative 0 cs
    else if c.isDigit then
      let (significand, rest) := takeDigits significandLimit 0 (c :: cs)
      if startsWithDigit rest then afterLongWhole negative significand rest
      else afterWhole negative significand rest
    else atNext .invalidNumber (c :: cs)

/-! ### Containers -/

/-- The items of an array from the next one on, up to the closing bracket.  At most `fuel`
items are read; a text's length is always enough. -/
def items (item : Reader Json) : (fuel : Nat) → Reader (List Json)
  | 0, cs => atLast .endInList cs
  | fuel + 1, cs => do
    let (j, rest) ← item cs
    match skipBlanks rest with
    | [] => atLast .endInList []
    | ']' :: rest => return ([j], rest)
    | ',' :: rest =>
      match skipBlanks rest with
      | [] => atLast .endInValue []
      | ']' :: rest => atNext .trailingComma (']' :: rest)
      | rest => do
        let (js, rest) ← items item fuel rest
        return (j :: js, rest)
    | rest => atNext .expectedListEnd rest

/-- An array, after its opening bracket. -/
def arrayBody (item : Reader Json) (cs : List Char) : Except Fault (Read Json) :=
  match skipBlanks cs with
  | [] => atLast .endInList []
  | ']' :: rest => .ok (.array [], rest)
  | rest => do
    let (js, rest) ← items item (rest.length + 1) rest
    return (.array js, rest)

/-- A member of an object, after the opening quote of its key. -/
def member (item : Reader Json) (cs : List Char) : Except Fault (Read (String × Json)) := do
  let (key, rest) ← stringBody cs
  match skipBlanks rest with
  | [] => atLast .endInObject []
  | ':' :: rest => do
    let (j, rest) ← item rest
    return ((key, j), rest)
  | rest => atNext .expectedColon rest

/-- The members of an object from the next one on, whose opening quote has been read, up to
the closing brace.  At most `fuel` members are read; a text's length is always enough. -/
def members (item : Reader Json) : (fuel : Nat) → Reader (List (String × Json))
  | 0, cs => atLast .endInObject cs
  | fuel + 1, cs => do
    let (m, rest) ← member item cs
    match skipBlanks rest with
    | [] => atLast .endInObject []
    | '\x7d' :: rest => return ([m], rest)
    | ',' :: rest =>
      match skipBlanks rest with
      | [] => atLast .endInValue []
      | '"' :: rest => do
        let (ms, rest) ← members item fuel rest
        return (m :: ms, rest)
      | '\x7d' :: rest => atNext .trailingComma ('\x7d' :: rest)
      | rest => atNext .keyMustBeString rest
    | rest => atNext .expectedObjectEnd rest

/-- An object, after its opening brace. -/
def objectBody (item : Reader Json) (cs : List Char) : Except Fault (Read Json) :=
  match skipBlanks cs with
  | [] => atLast .endInObject []
  | '\x7d' :: rest => .ok (.object [], rest)
  | '"' :: rest => do
    let (ms, rest) ← members item (rest.length + 1) rest
    return (.object ms, rest)
  | rest => atNext .keyMustBeString rest

/-! ### Values -/

/-- How many brackets may be open at once. -/
def openLimit : Nat :=
  127

/-- A value in which arrays and objects have items read by `item?`; without it no further
bracket may be opened. -/
def valueWith (item? : Option (Reader Json)) (cs : List Char) : Except Fault (Read Json) :=
  match skipBlanks cs with
  | [] => atLast .endInValue []
  | c :: rest =>
    match c with
    | 'n' => word .null "ull".toList rest
    | 't' => word (.bool true) "rue".toList rest
    | 'f' => word (.bool false) "alse".toList rest
    | '-' => number true rest
    | '"' => do
      let (s, rest) ← stringBody rest
      return (.string s, rest)
    | '[' =>
      match item? with
      | none => atNext .recursionLimit (c :: rest)
      | some item => arrayBody item rest
    | '\x7b' =>
      match item? with
      | none => atNext .recursionLimit (c :: rest)
      | some item => objectBody item rest
    | _ => if c.isDigit then number false (c :: rest) else atNext .expectedValue (c :: rest)

/-- A value with at most `levels` brackets open at once. -/
def value : (levels : Nat) → Reader Json
  | 0 => valueWith none
  | levels + 1 => valueWith (some (value levels))

/-- The value that a whole text writes. -/
def parse (cs : List Char) : Except Fault Json := do
  let (j, rest) ← value openLimit cs
  match skipBlanks rest with
  | [] => return j
  | c :: rest => .error ⟨.trailingCharacters, c :: rest, 1⟩

end ModalScript.Json
