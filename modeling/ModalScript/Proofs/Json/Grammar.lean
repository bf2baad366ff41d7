/-
Standard JSON.

`Spells cs j` says that `cs` is one of the texts that the standard has for the value `j`: blanks
may stand around each value, and in a string any character may be escaped.  Floats are left out,
so that numbers are integers of 64 bits, each of them with the one text that it has.

`Fits n j` tells the values without floats that have no more than `n` brackets open at once.  The
keys of their objects ascend, since a decoder may keep the members of an object in a map.

With these two, what a codec is expected to do is said by two properties of it
(`Codec.WritesStandard`, `Codec.ReadsStandard`), which any codec may have.
-/
import Mathlib.Data.String.Basic
import ModalScript.Json.Codec

namespace ModalScript.Json

/-! ### Strings -/

/-- A text of blanks. -/
def Blanks (cs : List Char) : Prop :=
  ∀ c ∈ cs, isBlank c = true

/-- What may stand behind a backslash, with the character that it means there. -/
def shortEscapes : List (Char × Char) :=
  [('"', '"'), ('\\', '\\'), ('/', '/'), ('b', '\x08'), ('f', '\x0c'), ('n', '\n'), ('r', '\r'),
    ('t', '\t')]

/-- Four hexadecimal digits write a number. -/
def SpellsHex (cs : List Char) (n : Nat) : Prop :=
  cs.length = 4 ∧ Decimal.natural? 16 cs = some n

/-- A text stands for a character of a string. -/
inductive SpellsChar : List Char → Char → Prop
  | itself {c : Char} : 32 ≤ c.toNat → c ≠ '"' → c ≠ '\\' → SpellsChar [c] c
  | short {e c : Char} : (e, c) ∈ shortEscapes → SpellsChar ['\\', e] c
  | hex {cs : List Char} {c : Char} : SpellsHex cs c.toNat → SpellsChar ('\\' :: 'u' :: cs) c
  /-- A character beyond four digits is written as two surrogates. -/
  | surrogates {high low : List Char} {c : Char} : 0x10000 ≤ c.toNat →
      SpellsHex high (0xD800 + (c.toNat - 0x10000) / 0x400) →
      SpellsHex low (0xDC00 + (c.toNat - 0x10000) % 0x400) →
      SpellsChar ('\\' :: 'u' :: high ++ '\\' :: 'u' :: low) c

/-- A text stands for the characters of a string, one after the other. -/
inductive SpellsChars : List Char → List Char → Prop
  | nil : SpellsChars [] []
  | cons {ds cs s : List Char} {c : Char} :
      SpellsChar ds c → SpellsChars cs s → SpellsChars (ds ++ cs) (c :: s)

/-- A text is a string between quotes. -/
def SpellsString (cs : List Char) (s : String) : Prop :=
  ∃ body, SpellsChars body s.toList ∧ cs = '"' :: body ++ ['"']

/-- A text is a key: a string, with blanks around it. -/
def SpellsKey (cs : List Char) (key : String) : Prop :=
  ∃ front middle back, Blanks front ∧ SpellsString middle key ∧ Blanks back ∧
    cs = front ++ middle ++ back

/-! ### Values -/

/-- An item of an array, with its text. -/
structure Item where
  text : List Char
  value : Json

/-- A member of an object, with the texts of its key and of its value. -/
structure Member where
  keyText : List Char
  key : String
  valueText : List Char
  value : Json

/-- The text of a member. -/
def Member.text (m : Member) : List Char :=
  m.keyText ++ ':' :: m.valueText

/-- A text stands for a value. -/
inductive Spells : List Char → Json → Prop
  | null : Spells "null".toList .null
  | bool (b : Bool) : Spells (if b then "true" else "false").toList (.bool b)
  | integer (n : Int64) : Spells (Decimal.text n).toList (.integer n)
  | string {cs : List Char} {s : String} : SpellsString cs s → Spells cs (.string s)
  | emptyArray {blanks : List Char} : Blanks blanks → Spells ('[' :: blanks ++ [']']) (.array [])
  | array {items : List Item} : items ≠ [] → (∀ i ∈ items, Spells i.text i.value) →
      Spells ('[' :: [','].intercalate (items.map Item.text) ++ [']'])
        (.array (items.map Item.value))
  | emptyObject {blanks : List Char} : Blanks blanks →
      Spells ('\x7b' :: blanks ++ ['\x7d']) (.object [])
  | object {members : List Member} : members ≠ [] → (∀ m ∈ members, SpellsKey m.keyText m.key) →
      (∀ m ∈ members, Spells m.valueText m.value) →
      Spells ('\x7b' :: [','].intercalate (members.map Member.text) ++ ['\x7d'])
        (.object (members.map fun m => (m.key, m.value)))
  | blanks {front cs back : List Char} {j : Json} : Blanks front → Spells cs j → Blanks back →
      Spells (front ++ cs ++ back) j

/-- The values without floats in which no more than so many brackets are open at once.  The keys
of an object ascend. -/
inductive Fits : Nat → Json → Prop
  | null (n : Nat) : Fits n .null
  | bool (n : Nat) (b : Bool) : Fits n (.bool b)
  | integer (n : Nat) (i : Int64) : Fits n (.integer i)
  | string (n : Nat) (s : String) : Fits n (.string s)
  | array {n : Nat} {items : List Json} : (∀ j ∈ items, Fits n j) → Fits (n + 1) (.array items)
  | object {n : Nat} {members : List (String × Json)} :
      (members.map Prod.fst).Pairwise (· < ·) → (∀ m ∈ members, Fits n m.2) →
      Fits (n + 1) (.object members)

/-- With more brackets allowed, no fewer values fit. -/
theorem Fits.mono {n n' : Nat} {j : Json} (hj : Fits n j) (hn : n ≤ n') : Fits n' j := by
  induction hj generalizing n' with
  | null => exact .null n'
  | bool _ b => exact .bool n' b
  | integer _ i => exact .integer n' i
  | string _ s => exact .string n' s
  | array _ ih =>
    obtain ⟨m, rfl⟩ := Nat.exists_eq_add_one.mpr (Nat.zero_lt_of_lt hn)
    exact .array fun j hj => ih j hj (Nat.le_of_succ_le_succ hn)
  | object hkeys _ ih =>
    obtain ⟨m, rfl⟩ := Nat.exists_eq_add_one.mpr (Nat.zero_lt_of_lt hn)
    exact .object hkeys fun j hj => ih j hj (Nat.le_of_succ_le_succ hn)

/-! ### Codecs -/

/-- The codec writes standard JSON. -/
def Codec.WritesStandard [Codec] : Prop :=
  ∀ n j, Fits n j → Spells (Codec.write j).toList j

/-- The codec reads standard JSON as long as fewer than `limit` brackets are open at once.  What
it reads is the very value, with the very integers. -/
def Codec.ReadsStandard [Codec] (limit : Nat) : Prop :=
  ∀ (t : String) (j : Json), Spells t.toList j → ∀ n < limit, Fits n j → Codec.read t = .ok j

end ModalScript.Json
