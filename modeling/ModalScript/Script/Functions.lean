/-
The user-defined functions of a session.

Functions are filed under a scope and a name.  A name is written with `s:` or `g:` in front
of it, or without; without one it means a global function if there is one, and else a
function of the script.
-/
import ModalScript.Script.Source
import ModalScript.Script.Variables
import ModalScript.Text.Uppercase

namespace ModalScript

/-! ### Names -/

/-- The scope in front of the name of a function, and the name behind it. -/
def FunctionScope.split (name : String) : Option FunctionScope × String :=
  match name.toList with
  | 's' :: ':' :: rest => (some .script, String.ofList rest)
  | 'g' :: ':' :: rest => (some .globals, String.ofList rest)
  | _ => (none, name)

/-- The signature of a function without parameters. -/
def Signature.named (name : String) : Signature :=
  let (scope, bare) := FunctionScope.split name
  { scope := scope.getD .globals
    name := bare
    required := []
    optional := []
    variadic := false
    flags := {}
    replaces := false }

/-! ### Numbers of arguments -/

/-- Refuses a number of arguments below `least` or above `most`. -/
def checkArity (name : String) (least : Nat) (most : Option Nat) (given : Nat) :
    Except ArityError Unit :=
  if given < least then .error (.tooFew name least given)
  else
    match most with
    | some most => if most < given then .error (.tooMany name most given) else .ok ()
    | none => .ok ()

namespace Signature

/-- The least number of arguments. -/
def leastArguments (s : Signature) : Nat :=
  s.required.length

/-- The greatest number of arguments; a variadic function has none. -/
def mostArguments (s : Signature) : Option Nat :=
  if s.variadic then none else some (s.required.length + s.optional.length)

/-- Refuses a number of arguments that the function cannot be called with. -/
def checkArity (s : Signature) (given : Nat) : Except ArityError Unit :=
  ModalScript.checkArity s.qualifiedName s.leastArguments s.mostArguments given

end Signature

/-! ### The registry -/

/-- A function, with the local variables it can see from the function that defined it. -/
structure DefinedFunction where
  function : Function
  captured : Option LocalsRef

/-- The functions of a session. -/
structure Functions where
  globals : Dict DefinedFunction
  script : Dict DefinedFunction
  deriving Inhabited

namespace Functions

/-- No functions. -/
def empty : Functions :=
  ⟨.empty, .empty⟩

/-- The functions of a scope. -/
def table (fs : Functions) : FunctionScope → Dict DefinedFunction
  | .globals => fs.globals
  | .script => fs.script

/-- Gives a scope other functions. -/
def setTable (fs : Functions) (scope : FunctionScope) (d : Dict DefinedFunction) : Functions :=
  match scope with
  | .globals => { fs with globals := d }
  | .script => { fs with script := d }

/-- The function that a name means. -/
def get? (fs : Functions) (name : String) : Option DefinedFunction :=
  match FunctionScope.split name with
  | (some scope, bare) => (fs.table scope).get? bare
  | (none, bare) => ((fs.table .globals).get? bare).or ((fs.table .script).get? bare)

/-- Whether a text begins with an uppercase character. -/
def startsUppercase (s : String) : Bool :=
  match s.toList with
  | c :: _ => Text.isUppercase c
  | [] => false

/-- Adds a function.  The name of a global function begins with an uppercase character, and
only a function that says so takes the place of another one. -/
def define (fs : Functions) (f : DefinedFunction) : Except ExecError Functions :=
  let s := f.function.signature
  if s.scope = .globals ∧ ¬startsUppercase s.name then
    .error (.statement ("E128: Function name must start with a capital or \"s:\": " ++ s.name))
  else if (fs.table s.scope).contains s.name ∧ ¬s.replaces then
    .error (.statement
      ("E122: Function " ++ s.qualifiedName ++ " already exists, add ! to replace it"))
  else .ok (fs.setTable s.scope ((fs.table s.scope).insert s.name f))

/-- Removes the function with a name, which without a scope means a global one, and tells
whether there was one. -/
def remove (fs : Functions) (name : String) : Bool × Functions :=
  let (scope?, bare) := FunctionScope.split name
  let scope := scope?.getD .globals
  ((fs.table scope).contains bare, fs.setTable scope ((fs.table scope).erase bare))

/-- The names of all functions with their scopes: the global ones in order, then the others. -/
def names (fs : Functions) : List String :=
  fs.globals.keys ++ fs.script.keys.map (FunctionScope.script.mark ++ ·)

end Functions

end ModalScript
