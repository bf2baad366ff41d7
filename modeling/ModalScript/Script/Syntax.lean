/-
The syntax of scripts: expressions, commands and statements.

A script is a list of statements.  Most statements are commands; a command is made either
of expressions, or of a plain text that it reads itself.
-/
import ModalScript.Script.Name
import ModalScript.Value.Operator

namespace ModalScript

/-! ### Expressions -/

/-- Which value of a setting an expression reads or an assignment writes. -/
inductive SettingAccess where
  /-- The editor's own value if it has one. -/
  | effective
  | own
  | shared
  deriving DecidableEq

/-- The characters in front of the name of a setting. -/
def SettingAccess.sigil : SettingAccess → String
  | .effective => "&"
  | .own => "&l:"
  | .shared => "&g:"

/-- An expression. -/
inductive Expr where
  | integer (n : Int64)
  | float (x : Float)
  | string (s : String)
  | list (items : List Expr)
  | dict (entries : List (Expr × Expr))
  | variable (v : VariableName)
  | setting (access : SettingAccess) (name : String)
  /-- A reference to the function with a name. -/
  | funcref (name : String)
  | unary (op : UnaryOp) (operand : Expr)
  | binary (op : BinaryOp) (left right : Expr)
  | conditional (condition whenTrue whenFalse : Expr)
  | index (base index : Expr)
  | call (name : String) (args : List Expr)
  /-- A call of the function that a dictionary holds under a key, on that dictionary. -/
  | method (receiver : Expr) (key : String) (args : List Expr)
  deriving Inhabited

/-! ### Command lines -/

/-- A range of lines, both ends included, counted from 1. -/
structure LineRange where
  first : Nat
  last : Nat
  deriving DecidableEq, Inhabited

namespace LineRange

/-- The range that is a single line. -/
def single (line : Nat) : LineRange :=
  ⟨line, line⟩

/-- The number of lines. -/
def length (r : LineRange) : Nat :=
  r.last + 1 - r.first

/-- Whether there is no line in the range. -/
def isEmpty (r : LineRange) : Bool :=
  r.last < r.first

/-- The range as it is written: one number, or two with a comma. -/
def text (r : LineRange) : String :=
  if r.first = r.last then r.first.repr else r.first.repr ++ "," ++ r.last.repr

end LineRange

/-- What is given with a command besides its name. -/
structure CommandLine where
  range : Option LineRange := none
  bang : Bool := false
  argument : String := ""
  deriving DecidableEq, Inhabited

/-! ### Commands -/

/-- What an assignment changes. -/
inductive LetTarget where
  | variable (v : VariableName)
  /-- An element of a list, or the value of a key of a dictionary. -/
  | index (base index : Expr)
  | setting (access : SettingAccess) (name : String)
  deriving Inhabited

/-- How an assignment combines the old value with the new one. -/
inductive LetOperator where
  | assign
  | arithmetic (op : Arithmetic)
  | concat
  deriving DecidableEq

namespace LetOperator

/-- The operator that combines the old value with the new one, if any does. -/
def binary? : LetOperator → Option BinaryOp
  | .assign => none
  | .arithmetic op => some (.arithmetic op)
  | .concat => some .concat

/-- The symbol of an assignment. -/
def symbol : LetOperator → String
  | .assign => "="
  | .arithmetic op => (BinaryOp.arithmetic op).symbol ++ "="
  | .concat => ".="

end LetOperator

/-- Which values a settings command reads and writes. -/
inductive SetKind where
  /-- The editor's value and the shared one. -/
  | both
  | own
  | shared
  deriving DecidableEq

/-- The commands that read a plain text. -/
inductive TextCommand where
  | delete
  | deleteFunction
  | print
  | set (kind : SetKind)
  | unlet
  deriving DecidableEq

/-- A command. -/
inductive Command where
  | assign (target : LetTarget) (op : LetOperator) (value : Expr)
  /-- Shows values, as a message or as an error. -/
  | echo (isError : Bool) (values : List Expr)
  | call (range : Option LineRange) (name : String) (args : List Expr)
  | text (command : TextCommand) (line : CommandLine)
  deriving Inhabited

/-! ### Functions and statements -/

/-- Where a function is filed. -/
inductive FunctionScope where
  | globals
  | script
  deriving DecidableEq

/-- How a function wants to be called. -/
structure FunctionFlags where
  /-- The body is run once for each line of the range. -/
  perLine : Bool := false
  /-- The body ends at the first problem. -/
  abort : Bool := false
  /-- The function is called on a dictionary. -/
  dict : Bool := false
  /-- The function sees the local variables of the function that defines it. -/
  closure : Bool := false
  deriving DecidableEq, Inhabited

/-- What is known of a function besides its body. -/
structure Signature where
  scope : FunctionScope
  name : String
  required : List String
  /-- Parameters that may be left out, with what is evaluated for them then. -/
  optional : List (String × Expr)
  variadic : Bool
  flags : FunctionFlags
  /-- Whether the function may take the place of another of its name. -/
  replaces : Bool

/-- A statement. -/
inductive Statement where
  | command (c : Command)
  /-- Runs the block of the first condition that holds, or else the last block. -/
  | branch (cases : List (Expr × List Statement)) (otherwise : List Statement)
  | whileLoop (condition : Expr) (body : List Statement)
  | forLoop (target : VariableName) (items : Expr) (body : List Statement)
  | breakLoop
  | continueLoop
  | leave (value : Option Expr)
  | finish
  | define (signature : Signature) (body : List Statement)
  deriving Inhabited

/-- A user-defined function. -/
structure Function where
  signature : Signature
  body : List Statement

end ModalScript
