/-
What commands are called and what may be given with them.

Every command has a `Descriptor`: whether it takes a range and an argument, and whether it
may change the text of the buffer.  `validate` checks a command line against it before the
command does anything.  Commands that read a plain text are found by their names, which may
be shortened; `TextCommand.ofName?` takes the shortest name that begins as typed.
-/
import ModalScript.Script.Error
import ModalScript.Script.Source

namespace ModalScript

/-- Whether something may or must be given. -/
inductive Need where
  | forbidden
  | optional
  | required
  deriving DecidableEq

/-- What a command may do to the text of the buffer. -/
inductive Access where
  | readOnly
  | write
  deriving DecidableEq

/-- What may be given with a command, and what it may do. -/
structure Descriptor where
  range : Need
  argument : Need
  access : Access
  deriving DecidableEq

/-- The argument without blanks at its ends. -/
def CommandLine.trimmed (line : CommandLine) : List Char :=
  Text.trim line.argument.toList

/-- Whether there is an argument that is not blank. -/
def CommandLine.hasArgument (line : CommandLine) : Bool :=
  !line.trimmed.isEmpty

/-- Refuses a range that is given or missing against the rules, or is not in the buffer. -/
def validateRange (name : String) (need : Need) (range : Option LineRange) (lineCount : Nat) :
    Except ExecError Unit :=
  match need, range with
  | .forbidden, some _ => .error (.statement "E481: No range allowed")
  | .required, none => .error (.statement ("E14: Range required: " ++ name))
  | _, some r =>
    if r.first = 0 ∨ r.isEmpty ∨ lineCount < r.last then .error (.statement "E16: Invalid range")
    else .ok ()
  | _, none => .ok ()

/-- Refuses an argument that is given or missing against the rules. -/
def validateArgument (need : Need) (line : CommandLine) : Except ExecError Unit :=
  match need, line.hasArgument with
  | .forbidden, true =>
    .error (.statement ("E488: Trailing characters: " ++ String.ofList line.trimmed))
  | .required, false => .error (.statement "E471: Argument required")
  | _, _ => .ok ()

/-- Checks a command line against a descriptor. -/
def validate (name : String) (d : Descriptor) (line : CommandLine) (lineCount : Nat) :
    Except ExecError Unit := do
  validateRange name d.range line.range lineCount
  validateArgument d.argument line

/-! ### Commands that read a plain text -/

namespace TextCommand

/-- The name of a command. -/
def name : TextCommand → String
  | .delete => "delete"
  | .deleteFunction => "delfunction"
  | .print => "print"
  | .set .both => "set"
  | .set .shared => "setglobal"
  | .set .own => "setlocal"
  | .unlet => "unlet"

/-- The least number of characters that must be typed of the name. -/
def leastTyped : TextCommand → Nat
  | .delete => 1
  | .deleteFunction => 4
  | .print => 1
  | .set .both => 2
  | .set .shared => 4
  | .set .own => 4
  | .unlet => 3

/-- The commands, those with shorter names first. -/
def all : List TextCommand :=
  [.set .both, .print, .unlet, .delete, .set .own, .set .shared, .deleteFunction]

/-- The command that a text names: it begins the name and is long enough. -/
def ofName? (typed : String) : Option TextCommand :=
  all.find? fun c =>
    c.leastTyped ≤ typed.toList.length && typed.toList.isPrefixOf c.name.toList

/-- What may be given with a command. -/
def descriptor : TextCommand → Descriptor
  | .delete => ⟨.optional, .optional, .write⟩
  | .deleteFunction => ⟨.forbidden, .required, .readOnly⟩
  | .print => ⟨.optional, .forbidden, .readOnly⟩
  | .set _ => ⟨.forbidden, .optional, .readOnly⟩
  | .unlet => ⟨.forbidden, .required, .readOnly⟩

end TextCommand

namespace Command

/-- The command that a text names. -/
def ofName (typed : String) (line : CommandLine) : Except ExecError Command :=
  match TextCommand.ofName? typed with
  | some c => .ok (.text c line)
  | none => .error (.statement ("E492: Not an editor command: " ++ typed))

/-- The name of a command. -/
def name : Command → String
  | .assign _ _ _ => "let"
  | .echo false _ => "echo"
  | .echo true _ => "echoerr"
  | .call _ _ _ => "call"
  | .text c _ => c.name

/-- What may be given with a command. -/
def descriptor : Command → Descriptor
  | .assign _ _ _ => ⟨.forbidden, .required, .readOnly⟩
  | .echo _ _ => ⟨.forbidden, .optional, .readOnly⟩
  | .call _ _ _ => ⟨.optional, .required, .write⟩
  | .text c _ => c.descriptor

/-- The command line; the argument of a command made of expressions is their text. -/
def line : Command → CommandLine
  | .assign target op value =>
    { argument := String.ofList
        (target.source ++ ' ' :: op.symbol.toList ++ ' ' :: value.source) }
  | .echo _ values => { argument := String.ofList (separated " " (Expr.sources values)) }
  | .call range name args => { range, argument := (Expr.call name args).text }
  | .text _ line => line

end Command

/-! ### Statements in one line -/

/-- A statement in one line, without what it contains. -/
def Statement.outline : Statement → String
  | .command c => "Command(" ++ c.name ++ ")"
  | .branch cases _ => "If(" ++ cases.length.repr ++ " branches)"
  | .whileLoop test _ => "While(" ++ test.text ++ ")"
  | .forLoop target items _ => "For(" ++ target.text ++ " in " ++ items.text ++ ")"
  | .breakLoop => "Break"
  | .continueLoop => "Continue"
  | .leave (some value) => "Return(" ++ value.text ++ ")"
  | .leave none => "Return"
  | .finish => "Finish"
  | .define signature _ => "Function(" ++ signature.name ++ ")"

end ModalScript
