/-
What is fixed about a setting: its names, its type and default, whether editors share it,
how its text is cut into tokens, and which values it accepts.
-/
import ModalScript.Keyword.Classifier

namespace ModalScript

/-! ### Tokens -/

/-- How the text of a list of tokens is cut. -/
inductive Tokenizer where
  | commas
  | keywords
  /-- Some other way, in which a text may be malformed. -/
  | rule (cut : String → Option (List String))

namespace Tokenizer

/-- The parts between commas, none of which may be empty.  The empty text has no parts. -/
def splitCommas (s : String) : Option (List String) :=
  if s = "" then some []
  else
    let parts := s.toList.splitOn ','
    if [] ∈ parts then none else some (parts.map String.ofList)

/-- The tokens of a text, if it is well-formed. -/
def tokenize : Tokenizer → String → Option (List String)
  | .commas, s => splitCommas s
  | .keywords, s => some (splitTokens s)
  | .rule cut, s => cut s

end Tokenizer

/-! ### Checks -/

/-- Which values of its type a setting accepts. -/
inductive SettingCheck where
  | anything
  /-- Numbers from `least` to `most`. -/
  | bounded (least most : Int64)
  /-- Texts, or lists of tokens, taken from a list. -/
  | oneOf (allowed : List String)
  /-- Well-formed keyword lists. -/
  | keywords
  /-- Lists of two characters with a colon between. -/
  | pairs
  /-- Whatever a rule accepts. -/
  | rule (accepts : SettingValue → Except String Unit)

namespace SettingCheck

/-- Refuses a token that is not in a list. -/
def checkAllowed (allowed : List String) (token : String) : Except String Unit :=
  if token ∈ allowed then .ok ()
  else
    .error ("'" ++ token ++ "' is not one of " ++
      String.ofList ([',', ' '].intercalate (allowed.map String.toList)))

/-- Refuses a token that is not a pair of characters. -/
def checkPair (token : String) : Except String Unit :=
  match token.toList with
  | [_, ':', _] => .ok ()
  | _ => .error ("'" ++ token ++ "' is not a character pair")

/-- Accepts a value or says why not. -/
def run : SettingCheck → SettingValue → Except String Unit
  | .anything, _ => .ok ()
  | .bounded least most, .number n =>
    if least ≤ n ∧ n ≤ most then .ok ()
    else
      .error (Decimal.text n ++ " is outside " ++ Decimal.text least ++ "..=" ++
        Decimal.text most)
  | .bounded _ _, _ => .ok ()
  | .oneOf allowed, .text s => checkAllowed allowed s
  | .oneOf allowed, .tokens ts => ts.forM (checkAllowed allowed)
  | .oneOf _, _ => .ok ()
  | .keywords, .tokens ts =>
    match KeywordClassifier.ofTokens ts with
    | .ok _ => .ok ()
    | .error e => .error e.message
  | .keywords, v => .error ("expected a token list, got " ++ v.type.name)
  | .pairs, .tokens ts => ts.forM checkPair
  | .pairs, _ => .ok ()
  | .rule accepts, v => accepts v

end SettingCheck

/-! ### Declarations -/

/-- What is fixed about a setting. -/
structure SettingDeclaration where
  name : String
  abbreviation : Option String
  kind : SettingKind
  default : SettingValue
  tokenizer : Tokenizer
  check : SettingCheck

namespace SettingDeclaration

/-- A setting that editors share and that accepts every value of its default's type.  The
empty text is no abbreviation. -/
def ofDefault (name abbreviation : String) (default : SettingValue) : SettingDeclaration :=
  { name
    abbreviation := if abbreviation = "" then none else some abbreviation
    kind := .shared
    default
    tokenizer := .commas
    check := .anything }

/-- A list of tokens whose default is written with commas; a malformed one is empty. -/
def ofTokens (name abbreviation default : String) : SettingDeclaration :=
  ofDefault name abbreviation (.tokens ((Tokenizer.splitCommas default).getD []))

/-- The setting kept for each editor. -/
def perEditor (d : SettingDeclaration) : SettingDeclaration :=
  { d with kind := .perEditor }

/-- The setting with another check of its values. -/
def checkedBy (d : SettingDeclaration) (check : SettingCheck) : SettingDeclaration :=
  { d with check }

/-- The setting with its text cut in another way, its default included. -/
def tokenizedBy (d : SettingDeclaration) (tokenizer : Tokenizer) : SettingDeclaration :=
  { d with
    tokenizer
    default :=
      match d.default with
      | .tokens ts => .tokens ((tokenizer.tokenize (SettingValue.joinTokens ts)).getD [])
      | v => v }

/-- The type of the setting. -/
def type (d : SettingDeclaration) : SettingType :=
  d.default.type

/-- Whether a text is the name of the setting or its abbreviation. -/
def answersTo (d : SettingDeclaration) (name : String) : Bool :=
  d.name == name || d.abbreviation == some name

/-- The scope at which a value of the setting is kept, when it is read or written at the
given one. -/
def effectiveScope (d : SettingDeclaration) : SettingScope → SettingScope
  | .shared => .shared
  | .editor id =>
    match d.kind with
    | .shared => .shared
    | .perEditor => .editor id

end SettingDeclaration

end ModalScript
