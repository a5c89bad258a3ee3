import TapeMachine.Table
import TapeMachine.Text.Order
import TapeMachine.Text.Quoted
/-!
# Checks of a finished table

A program needs a known initial state and known targets. A state that owns transitions but that no
run from the initial state can enter deserves a warning. Since the anonymous state serves every
state, its targets count as entered from anywhere.
-/
namespace TapeMachine

/-- What can be wrong with a table as a whole. -/
inductive Problem
  | missingInitial
  | invalidInitial (state : Name)
  | undefinedTarget (state : Name) (read : Symbol) (target : Name)
  | unreachable (states : List Name)
  deriving DecidableEq

namespace Problem

def isFatal : Problem → Bool
  | unreachable _ => false
  | _ => true

def message : Problem → String
  | missingInitial => "No initial state declared"
  | invalidInitial state =>
    "Invalid initial state " ++ Text.inQuotes state ++ ": not in transition table"
  | undefinedTarget state read target =>
    "Invalid target state " ++ Text.inQuotes target ++ " in transition " ++
      String.ofList (state ++ [':', read.toChar])
  | unreachable states =>
    "Unreachable states detected: " ++ String.ofList (Text.quotedList states)

end Problem

namespace Table

def targets (table : Table) (name : Name) : List Name :=
  match table.get? name with
  | none => []
  | some state => state.transitions.map (·.target)

/--
The names seen once every name of the queue and everything it leads to has been looked at. The
first argument bounds the number of names taken from the queue.
-/
def explore (table : Table) : Nat → List Name → List Name → List Name
  | 0, _, seen => seen
  | _ + 1, [], seen => seen
  | n + 1, name :: queue, seen =>
    if name ∈ seen then explore table n queue seen
    else explore table n (table.targets name ++ queue) (name :: seen)

/--
The names that a run from `initial` may enter. Each state is looked into once and the anonymous one
once more, so the queue holds at most one name and twice the transitions over time.
-/
def reachable (table : Table) (initial : Name) : List Name :=
  table.explore (1 + 2 * table.transitions.length)
    (initial :: table.targets Name.anonymous) []

def lost (table : Table) (initial : Name) : List Name :=
  let seen := table.reachable initial
  (table.states.filter fun s =>
    !s.transitions.isEmpty && !s.isAnonymous && !seen.contains s.name).map (·.name)

/-- The states that cannot be entered, in alphabetical order. -/
def unreachable (table : Table) (initial : Name) : List Name :=
  (table.lost initial).mergeSort Text.precedes

def initialProblems (table : Table) : Option Name → List Problem
  | none => [.missingInitial]
  | some name => if table.contains name then [] else [.invalidInitial name]

def reachabilityProblems (table : Table) : Option Name → List Problem
  | none => []
  | some name =>
    if table.contains name ∧ table.lost name ≠ [] then [.unreachable (table.unreachable name)]
    else []

/-- Everything wrong with a table, fatal problems first. -/
def problems (table : Table) (initial : Option Name) : List Problem :=
  table.initialProblems initial ++
    (table.unresolved.map fun t => .undefinedTarget t.state t.read t.target) ++
    table.reachabilityProblems initial

end Table

end TapeMachine
