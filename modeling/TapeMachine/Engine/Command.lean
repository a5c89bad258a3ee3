import TapeMachine.Text.Blank
import TapeMachine.Text.Decimal
import TapeMachine.Transition
/-!
# Commands

A line of input is one command. White space around it does not count, and a line that is no command
is kept as it was given.
-/
namespace TapeMachine

inductive Command
  | step (count : Nat)
  | move (d : Direction)
  | setState (name : Name)
  | write (c : Char)
  | quit
  | invalid (text : List Char)
  deriving DecidableEq

namespace Command

def prompt : String :=
  "(step: <enter> | skip: <int> | move: r/l | state: $<state> | write: +<symbol> | quit: q)"

def ofNumber (text : List Char) : Command :=
  match Text.readWord text with
  | some n => step n
  | none => invalid text

/-- The command of a text without white space around it. -/
def ofText : List Char → Command
  | [] => step 1
  | ['q'] => quit
  | ['r'] => move .right
  | ['l'] => move .left
  | ['$'] => invalid ['$']
  | '$' :: name => setState name
  | ['+', c] => write c
  | text => ofNumber text

def ofLine (line : List Char) : Command := ofText (Text.trim line)

end Command

end TapeMachine
