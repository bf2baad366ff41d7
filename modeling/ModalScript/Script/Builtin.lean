/-
The functions that are built in.

Each has a name and a least and a greatest number of arguments.  All but `call` are
computations of their own; `call` hands over to whatever calls functions.  JSON texts are
written and read by a codec; where none is named, it is that of the program.
-/
import ModalScript.Script.Interp
import ModalScript.Value.Json

namespace ModalScript

/-- The built-in functions. -/
inductive Builtin where
  | len
  | empty
  | type
  | string
  | copy
  | deepcopy
  | add
  | get
  | hasKey
  | keys
  | values
  | join
  | split
  | abs
  | function
  | call
  | exists
  | line
  | getline
  | jsonEncode
  | jsonDecode
  deriving DecidableEq

namespace Builtin

/-- All built-in functions. -/
def all : List Builtin :=
  [.len, .empty, .type, .string, .copy, .deepcopy, .add, .get, .hasKey, .keys, .values, .join,
    .split, .abs, .function, .call, .exists, .line, .getline, .jsonEncode, .jsonDecode]

/-- The name of a function. -/
def name : Builtin → String
  | .len => "len"
  | .empty => "empty"
  | .type => "type"
  | .string => "string"
  | .copy => "copy"
  | .deepcopy => "deepcopy"
  | .add => "add"
  | .get => "get"
  | .hasKey => "has_key"
  | .keys => "keys"
  | .values => "values"
  | .join => "join"
  | .split => "split"
  | .abs => "abs"
  | .function => "function"
  | .call => "call"
  | .exists => "exists"
  | .line => "line"
  | .getline => "getline"
  | .jsonEncode => "json_encode"
  | .jsonDecode => "json_decode"

/-- The function with a name. -/
def ofName? (name : String) : Option Builtin :=
  all.find? (·.name == name)

/-- The least and the greatest number of arguments. -/
def arity : Builtin → Nat × Nat
  | .add | .hasKey => (2, 2)
  | .get | .call => (2, 3)
  | .join | .split => (1, 2)
  | _ => (1, 1)

end Builtin

/-- Whether there is a function with a name. -/
def State.hasFunction (s : State) (name : String) : Bool :=
  (s.session.functions.get? name).isSome || (Builtin.ofName? name).isSome

namespace Builtin

/-- A number of things as a value. -/
def count (n : Nat) : Value :=
  .integer (Decimal.clamp n)

/-- The size of a value: the bytes of a text, the elements of a container. -/
def size (h : Heap) : Value → Except EvalError Value
  | .string s => .ok (count s.utf8ByteSize)
  | .integer n => .ok (count (Decimal.text n).utf8ByteSize)
  | .list r => .ok (count (h.items r).length)
  | .dict r => .ok (count (h.table r).size)
  | v => .error (v.mismatch .list)

/-- Whether a value is zero or has nothing in it. -/
def isEmpty (h : Heap) : Value → Bool
  | .integer n => n == 0
  | .float x => x == 0.0
  | .string s => s == ""
  | .list r => (h.items r).isEmpty
  | .dict r => (h.table r).size == 0
  | .funcref _ => false

/-- Adds an element at the end of a list, which is also the answer. -/
def addTo (list item : Value) : Allocating Value := do
  let r ← list.toList
  modify fun h => h.setItems r (h.items r ++ [item])
  return list

/-- The element at an index or the value of a key, or something else if there is none. -/
def getOr (h : Heap) (container index fallback : Value) : Except EvalError Value :=
  match container with
  | .list r => do
    let i ← index.toNumber
    return ((Value.resolveIndex i (h.items r).length).bind ((h.items r)[·]?)).getD fallback
  | .dict r => do
    let key ← index.toText
    return ((h.table r).get? key).getD fallback
  | v => .error (v.mismatch .list)

/-- Whether a dictionary has a key. -/
def keyIn (h : Heap) (dict key : Value) : Except EvalError Value := do
  let key ← key.toText
  let r ← dict.toDict
  return .bool ((h.table r).contains key)

/-- The list of the keys of a dictionary. -/
def keyList (dict : Value) : Allocating Value := do
  let r ← dict.toDict
  fun h => Allocating.newList ((h.table r).keys.map .string) h

/-- The list of the values of a dictionary. -/
def valueList (dict : Value) : Allocating Value := do
  let r ← dict.toDict
  fun h => Allocating.newList (h.table r).values h

/-- The text of an element that is joined: a string stands for itself. -/
def joinText (h : Heap) : Value → List Char
  | .string s => s.toList
  | v => (h.write v).toList

/-- The elements of a list as one text. -/
def joined (h : Heap) (list : Value) (separator? : Option Value) : Except EvalError Value := do
  let separator ← match separator? with
    | some v => v.toText
    | none => .ok " "
  let r ← list.toList
  return .string (String.ofList (separated separator ((h.items r).map (joinText h))))

/-- The parts of a text: its words, its characters for the empty separator, or what stands
between separators and is not empty. -/
def parts (s : List Char) : Option (List Char) → List (List Char)
  | none => Text.words s
  | some [] => s.map ([·])
  | some separator => (Text.splitOn separator s).filter (· ≠ [])

/-- A text cut into a list of parts. -/
def splitText (text : Value) (separator? : Option Value) : Allocating Value := do
  let s ← text.toText
  let separator? ← match separator? with
    | some v => do pure (some (← v.toText).toList)
    | none => pure none
  Allocating.newList ((parts s.toList separator?).map fun p => .string (String.ofList p))

/-- The size of a number. -/
def absolute : Value → Except EvalError Value
  | .float x => .ok (.float x.abs)
  | v => v.toNumber.map fun n => .integer (if n < 0 then -n else n)

/-- A reference to the function with a name. -/
def functionNamed (s : State) (name : Value) : Except EvalError Value := do
  let name ← name.toText
  if s.hasFunction name then return .funcref name else .error (.unknownFunction name)

/-- The name of the function that a value means. -/
def calledName : Value → Except EvalError String
  | .funcref name | .string name => .ok name
  | v => .error (v.mismatch .func)

/-- Whether there is a setting, a function or a variable; the first character says which. -/
def isKnown (s : State) (what : String) : Bool :=
  match what.toList with
  | '&' :: name =>
    match s.session.settings.declaration? (String.ofList name) with
    | .ok _ => true
    | .error _ => false
  | '*' :: name => s.hasFunction (String.ofList name)
  | _ => (s.lookup (.parse what)).isSome

/-- The line of the buffer, counted from 1, that a value means: the cursor's, the last one,
or the one with a number, as long as the buffer has this line. -/
def lineNumber (s : State) (spec : Value) : Except EvalError (Option Nat) := do
  let line ← match spec with
    | .string "." => pure s.currentLine
    | .string "$" => pure s.editor.buffer.lineCount
    | v => v.toNumber.map fun n => n.toInt.toNat
  return if 1 ≤ line ∧ line ≤ s.editor.buffer.lineCount then some line else none

/-- The text of a line. -/
def lineText (s : State) (spec : Value) : Except EvalError Value := do
  let line? ← lineNumber s spec
  return .string ((line?.bind fun line => s.editor.buffer.line? (line - 1)).getD "")

/-- Runs a function whose number of arguments is right. -/
def apply [Json.Codec] (call : Caller) (b : Builtin) (args : List Value) (site : CallSite) : Interp Value :=
  let arg (i : Nat) : Value := args[i]?.getD (.integer 0)
  let heap (f : Heap → Except EvalError Value) : Interp Value :=
    .readExcept fun s => f s.session.heap
  match b with
  | .len => heap fun h => size h (arg 0)
  | .empty => heap fun h => .ok (.bool (isEmpty h (arg 0)))
  | .type => pure (.integer (arg 0).kind.code)
  | .string => heap fun h => .ok (.string (h.write (arg 0)))
  | .copy => .onHeap (arg 0).shallowCopy
  | .deepcopy => .onHeap (arg 0).deepCopy
  | .add => .onHeap (addTo (arg 0) (arg 1))
  | .get => heap fun h => getOr h (arg 0) (arg 1) (arg 2)
  | .hasKey => heap fun h => keyIn h (arg 0) (arg 1)
  | .keys => .onHeap (keyList (arg 0))
  | .values => .onHeap (valueList (arg 0))
  | .join => heap fun h => joined h (arg 0) args[1]?
  | .split => .onHeap (splitText (arg 0) args[1]?)
  | .abs => .ofExcept (absolute (arg 0))
  | .function => .readExcept fun s => functionNamed s (arg 0)
  | .call => do
    let name ← .ofExcept (calledName (arg 0))
    let items ← .readExcept fun s => (arg 1).toList.map s.session.heap.items
    let dict ← match args[2]? with
      | some v => some <$> .ofExcept v.toDict
      | none => pure site.dict
    call name items { site with dict }
  | .exists => .readExcept fun s => (arg 0).toText.map fun what => .bool (isKnown s what)
  | .line => .readExcept fun s => (lineNumber s (arg 0)).map fun line? => count (line?.getD 0)
  | .getline => .readExcept fun s => lineText s (arg 0)
  | .jsonEncode => heap fun h =>
    match h.encode (arg 0) with
    | .ok text => .ok (.string text)
    | .error e => .error (.invalidArgument e.message)
  | .jsonDecode => .onHeap do Value.decode (← (arg 0).toText)

/-- Runs a function, if the number of arguments is right. -/
def run [Json.Codec] (call : Caller) (b : Builtin) (args : List Value) (site : CallSite) : Interp Value := do
  match checkArity b.name b.arity.1 (some b.arity.2) args.length with
  | .ok () => b.apply call args site
  | .error e => .fail (.eval (.arity e))

end Builtin

end ModalScript
