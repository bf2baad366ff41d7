/-
Scripts as text.

`Expr.source` writes an expression with brackets around every operator, as it stands in the
argument of a command; `Statement.outline` names a statement in one line.
-/
import ModalScript.Script.Syntax

namespace ModalScript

/-- Texts with a separator between them. -/
def separated (separator : String) (parts : List (List Char)) : List Char :=
  separator.toList.intercalate parts

namespace Expr

mutual

/-- The expression as text. -/
def source : Expr → List Char
  | .integer n => (Decimal.text n).toList
  | .float x => (Value.floatText x).toList
  | .string s => Text.quoted s.toList
  | .list items => '[' :: separated ", " (sources items) ++ [']']
  | .dict entries => '\x7b' :: separated ", " (entrySources entries) ++ ['\x7d']
  | .variable v => v.text.toList
  | .setting access name => access.sigil.toList ++ name.toList
  | .funcref name => Value.funcrefText name.toList
  | .unary op operand => op.symbol.toList ++ operand.source
  | .binary op left right =>
    '(' :: left.source ++ ' ' :: op.symbol.toList ++ ' ' :: right.source ++ [')']
  | .conditional condition whenTrue whenFalse =>
    '(' :: condition.source ++ " ? ".toList ++ whenTrue.source ++ " : ".toList ++
      whenFalse.source ++ [')']
  | .index base place => base.source ++ '[' :: place.source ++ [']']
  | .call name args => name.toList ++ '(' :: separated ", " (sources args) ++ [')']
  | .method receiver key args =>
    receiver.source ++ '.' :: key.toList ++ '(' :: separated ", " (sources args) ++ [')']

/-- The texts of expressions. -/
def sources : List Expr → List (List Char)
  | [] => []
  | e :: es => e.source :: sources es

/-- The texts of the entries of a dictionary. -/
def entrySources : List (Expr × Expr) → List (List Char)
  | [] => []
  | (k, v) :: es => (k.source ++ ": ".toList ++ v.source) :: entrySources es

end

/-- The expression as text. -/
def text (e : Expr) : String :=
  String.ofList e.source

end Expr

/-- The target of an assignment as text. -/
def LetTarget.source : LetTarget → List Char
  | .variable v => v.text.toList
  | .index base place => base.source ++ '[' :: place.source ++ [']']
  | .setting access name => (Expr.setting access name).source

/-! ### Functions -/

namespace FunctionScope

/-- What stands in front of the name of a function in a scope. -/
def mark : FunctionScope → String
  | .globals => ""
  | .script => "s:"

end FunctionScope

namespace Signature

/-- The name of the function with its scope. -/
def qualifiedName (s : Signature) : String :=
  s.scope.mark ++ s.name

/-- The words that follow the parameters. -/
def flagWords (f : FunctionFlags) : List Char :=
  ((if f.perLine then " range" else "") ++ (if f.abort then " abort" else "") ++
    (if f.dict then " dict" else "") ++ (if f.closure then " closure" else "")).toList

/-- The parameters as text. -/
def parameterSources (s : Signature) : List (List Char) :=
  s.required.map String.toList ++
    s.optional.map (fun p => p.1.toList ++ " = ".toList ++ p.2.source) ++
    (if s.variadic then ["...".toList] else [])

/-- The head of the definition as text. -/
def text (s : Signature) : String :=
  String.ofList
    ("function ".toList ++ s.qualifiedName.toList ++
      '(' :: separated ", " s.parameterSources ++ ')' :: flagWords s.flags)

end Signature

end ModalScript
