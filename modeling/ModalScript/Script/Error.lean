/-
Errors of scripts.

An `EvalError` arises while an expression is evaluated.  An `ExecError` is anything that
interrupts a statement: an evaluation error, a refused setting, a failure of the statement
itself, or the request to finish the script, which is no failure.  Only the failures that
are the statement's own are `collectable`: a function body notes them as a `Diagnostic`
and goes on.
-/
import ModalScript.Setting.Basic
import ModalScript.Value.Basic

namespace ModalScript

/-! ### Evaluation -/

/-- A call with too few or too many arguments, and the bound that was missed. -/
inductive ArityError where
  | tooFew (name : String) (least given : Nat)
  | tooMany (name : String) (most given : Nat)
  deriving DecidableEq

/-- The text of an arity error. -/
def ArityError.message : ArityError → String
  | .tooFew name _ _ => "E119: Not enough arguments for function: " ++ name
  | .tooMany name _ _ => "E118: Too many arguments for function: " ++ name

/-- What can go wrong while an expression is evaluated. -/
inductive EvalError where
  | undefinedVariable (name : String)
  | unknownFunction (name : String)
  | divisionByZero
  | typeMismatch (expected found : Kind)
  | indexOutOfRange (index : Int64)
  | missingKey (key : String)
  | readOnlyVariable (name : String)
  | illegalVariableName (name : String)
  | dictFunctionWithoutDict (name : String)
  | callDepthExceeded
  | nestedTooDeep
  | invalidArgument (what : String)
  | arity (error : ArityError)
  | setting (error : SettingError)
  deriving DecidableEq

/-- The text of an evaluation error. -/
def EvalError.message : EvalError → String
  | .undefinedVariable name => "E121: Undefined variable: " ++ name
  | .unknownFunction name => "E117: Unknown function: " ++ name
  | .divisionByZero => "E1154: Divide by zero"
  | .typeMismatch expected found =>
    "E1012: Type mismatch; expected " ++ expected.name ++ " but got " ++ found.name
  | .indexOutOfRange index => "E684: List index out of range: " ++ Decimal.text index
  | .missingKey key => "E716: Key not present in Dictionary: \"" ++ key ++ "\""
  | .readOnlyVariable name => "E46: Cannot change read-only variable \"" ++ name ++ "\""
  | .illegalVariableName name => "E461: Illegal variable name: " ++ name
  | .dictFunctionWithoutDict name => "E725: Calling dict function without Dictionary: " ++ name
  | .callDepthExceeded => "E132: Function call depth is higher than 'maxfuncdepth'"
  | .nestedTooDeep => "E698: Variable nested too deep for making a copy"
  | .invalidArgument what => "E474: Invalid argument: " ++ what
  | .arity error => error.message
  | .setting error => error.message

/-! ### Statements -/

/-- What can interrupt a statement. -/
inductive ExecError where
  | eval (error : EvalError)
  | setting (error : SettingError)
  /-- A failure of the statement itself, with its text. -/
  | statement (text : String)
  /-- The script asked to be finished. -/
  | finish
  deriving DecidableEq

namespace ExecError

/-- The text of whatever interrupted a statement. -/
def message : ExecError → String
  | .eval error => error.message
  | .setting error => error.message
  | .statement text => text
  | .finish => "finish"

/-- Whether a body notes the error and does not let it through. -/
def collectable : ExecError → Bool
  | .setting _ | .statement _ => true
  | .eval _ | .finish => false

end ExecError

/-! ### Problems noted while a body runs -/

/-- A problem noted while a body runs. -/
inductive Diagnostic where
  | breakWithoutLoop
  | continueWithoutLoop
  | returnOutsideFunction
  | failure (text : String)
  deriving DecidableEq

namespace Diagnostic

/-- The text of a diagnostic. -/
def message : Diagnostic → String
  | .breakWithoutLoop => "E587: :break without :while or :for: break"
  | .continueWithoutLoop => "E586: :continue without :while or :for: continue"
  | .returnOutsideFunction => "E133: :return not inside a function"
  | .failure text => text

/-- Whether the problem is a jump that has nowhere to go. -/
def isStrayJump : Diagnostic → Bool
  | .failure _ => false
  | _ => true

end Diagnostic

/-- The problems of one invocation.  All are counted and the last one is kept. -/
structure Diagnostics where
  last : Option Diagnostic := none
  count : Nat := 0
  deriving DecidableEq, Inhabited

/-- Notes one more problem. -/
def Diagnostics.add (ds : Diagnostics) (d : Diagnostic) : Diagnostics :=
  { last := some d, count := ds.count + 1 }

end ModalScript
