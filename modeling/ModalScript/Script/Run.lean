/-
Running whole scripts.

At the top level the failure of a statement is shown and the script goes on, an evaluation
error is shown and ends it, and `finish` ends it quietly.
-/
import ModalScript.Script.Call

namespace ModalScript

/-- Shows the problem of a statement at the top level, and tells whether the script goes on
behind it. -/
def Signal.atTop : Signal → Option Diagnostic × Bool
  | .done => (none, true)
  | .broken => (some .breakWithoutLoop, true)
  | .continued => (some .continueWithoutLoop, true)
  | .returned _ => (some .returnOutsideFunction, false)
  | .failed text => (some (.failure text), true)

/-- The fuel of a run that is to take as long as it needs. -/
def ampleFuel : Nat :=
  0x4000000000000000

/-- Runs the statements of a script. -/
def runScript (fuel : Nat) : List Statement → Interp Unit
  | [], s => (.value (), s)
  | st :: sts, s =>
    match (st.execute (callFunction fuel) fuel).collecting s with
    | (.value signal, s) =>
      let (problem?, goesOn) := signal.atTop
      let s := { s with session := s.session.report problem? }
      if goesOn then runScript fuel sts s else (.value (), s)
    | (.failed .finish, s) => (.value (), s)
    | (.failed e, s) => (.failed e, { s with session := s.session.reportError e.message })
    | (.outOfFuel, s) => (.outOfFuel, s)

end ModalScript
