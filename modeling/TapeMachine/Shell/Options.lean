import TapeMachine.Files.Path
/-!
# What a command line asks for

The arguments are read by a parser of options, which is not part of this library and is given as a
`Reader`. It says what is asked for, or how the command line ends at once: with a complaint about the
arguments, or with the help that they ask for.
-/
namespace TapeMachine.Shell

/-- The end of a command line: its code, what it wrote to its two outputs, and the milliseconds that
it paused. -/
structure Exit where
  code : Nat
  out : String
  err : String
  paused : Nat
  deriving DecidableEq

structure Options where
  path : Option Path
  sample : Option (List Char)
  list : Bool
  check : Bool
  dump : Bool
  delay : Nat
  tape : Option (List Char)
  deriving DecidableEq

/-- What arguments are found to ask for. -/
abbrev Reader := List Path → Except Exit Options

namespace Options

/-- The pause between two steps of a batch in milliseconds, unless one is given. -/
def defaultDelay : Nat := 10

end Options

end TapeMachine.Shell
