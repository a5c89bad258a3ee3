import TapeMachine.Table
import TapeMachine.Tape
/-!
# Programs

A program is a table with an initial state, the states that halt, the alphabet of the symbols that
may be written by hand, and the tape to begin with.
-/
namespace TapeMachine

/-- A machine description that was found to be in order. -/
structure Program where
  table : Table
  initial : Name
  halts : List Name
  alphabet : List Char
  tape : Tape
  deriving DecidableEq

namespace Program

def stateNames (p : Program) : List Name := p.table.names.filter (· ≠ Name.anonymous)

/-- The number of transitions, those of the anonymous state included. -/
def transitionCount (p : Program) : Nat := p.table.transitions.length

def sizeText (p : Program) : String :=
  toString p.stateNames.length ++ " state(s), " ++ toString p.transitionCount ++ " transition(s)"

end Program

end TapeMachine
