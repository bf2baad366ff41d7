/-
The value of an expression.

Evaluation follows the expression, and leaves the calling of functions to a `Caller`.
Operands are evaluated from left to right, except that `&&` and `||` stop when the left one
decides and a conditional evaluates one branch only.
-/
import ModalScript.Script.Builtin

namespace ModalScript

namespace Expr

/-- A value as a condition. -/
def condition (v : Value) : Interp Bool :=
  .ofExcept v.toCondition

/-- The function that a dictionary holds under a key. -/
def methodTarget (h : Heap) (r : DictRef) (key : String) : Except EvalError String :=
  match (h.table r).get? key with
  | some (.funcref name) => .ok name
  | some v => .error (v.mismatch .func)
  | none => .error (.missingKey key)

/-- The value of a setting. -/
def settingValue (s : State) (access : SettingAccess) (name : String) :
    Except EvalError Value :=
  match s.session.settings.getValue (access.scope s.editor.id) name with
  | .ok v => .ok v
  | .error e => .error (.setting e)

mutual

/-- The value of an expression. -/
def evaluate (call : Caller) : Expr → Interp Value
  | .integer n => pure (.integer n)
  | .float x => pure (.float x)
  | .string s => pure (.string s)
  | .list items => do
    let vs ← evaluateAll call items
    .onHeap (Allocating.newList vs)
  | .dict entries => do
    let d ← evaluateEntries call .empty entries
    .onHeap (Allocating.newDict d)
  | .variable v => .readExcept fun s => s.session.vars.get v s.editor.id
  | .setting access name => .readExcept fun s => settingValue s access name
  | .funcref name => .readExcept fun s =>
    if s.hasFunction name then .ok (.funcref name) else .error (.unknownFunction name)
  | .unary op operand => do
    let v ← evaluate call operand
    .ofExcept (Value.unary op v)
  | .binary .and left right => do
    if ← condition (← evaluate call left) then
      return .bool (← condition (← evaluate call right))
    else return .bool false
  | .binary .or left right => do
    if ← condition (← evaluate call left) then return .bool true
    else return .bool (← condition (← evaluate call right))
  | .binary op left right => do
    let v ← evaluate call left
    let w ← evaluate call right
    .onHeap (Value.binary op v w)
  | .conditional test whenTrue whenFalse => do
    if ← condition (← evaluate call test) then evaluate call whenTrue
    else evaluate call whenFalse
  | .index base place => do
    let v ← evaluate call base
    let i ← evaluate call place
    .readExcept fun s => Value.index s.session.heap v i
  | .call name args => do
    let vs ← evaluateAll call args
    call name vs {}
  | .method receiver key args => do
    let v ← evaluate call receiver
    let r ← .ofExcept v.toDict
    let name ← .readExcept fun s => methodTarget s.session.heap r key
    let vs ← evaluateAll call args
    call name vs { dict := some r }

/-- The values of expressions, from left to right. -/
def evaluateAll (call : Caller) : List Expr → Interp (List Value)
  | [] => pure []
  | e :: es => do
    let v ← evaluate call e
    let vs ← evaluateAll call es
    return v :: vs

/-- The entries of a dictionary, from left to right, added to those in `d`. -/
def evaluateEntries (call : Caller) (d : Dict Value) :
    List (Expr × Expr) → Interp (Dict Value)
  | [] => pure d
  | (k, e) :: es => do
    let k ← evaluate call k
    let key ← .ofExcept k.toText
    let v ← evaluate call e
    evaluateEntries call (d.insert key v) es

end

end Expr

end ModalScript
