import TapeMachine.Engine.Command
import TapeMachine.Engine.Machine
/-!
# Sessions

A session executes commands on a machine. Each attempted step and each manual command shows a
frame, each command ends with a status, and a prompt asks for the next. The first command, a single
step, is not asked for. A batch of steps ends early at a missing transition or a halting state.
-/
namespace TapeMachine

/-- What is shown of a machine, with the attempt that led there. -/
structure View where
  state : Name
  tape : Tape
  steps : Nat
  halted : Bool
  last : Option Attempt
  deriving DecidableEq

def Machine.view (m : Machine) (last : Option Attempt) : View :=
  ⟨m.state, m.tape, m.steps, m.isHalted, last⟩

inductive Outcome
  | stepped (requested performed : Nat) (last : Option Attempt) (halted : Bool)
  | halted (steps : Nat)
  | moved (d : Direction)
  | stateSet (name : Name)
  | written (c : Char)
  | invalid (text : List Char)
  | quit
  deriving DecidableEq

namespace Outcome

def batchMessage (requested performed : Nat) (stopped : Bool) : String :=
  if stopped then "Halted after " ++ toString performed ++ " steps"
  else if requested = 1 then "Stepped one step"
  else "Skipped forward " ++ toString performed ++ " steps"

def message : Outcome → String
  | stepped requested performed (some (.refused state cell)) _ =>
    "No transition for state " ++ Text.inQuotes state ++ " reading " ++ Text.inQuotes [cell] ++
      " after " ++ toString performed ++ " of " ++ toString requested ++ " steps"
  | stepped requested performed _ stopped => batchMessage requested performed stopped
  | halted steps => "HALTED at step " ++ toString steps
  | moved .left => "Moving head left"
  | moved _ => "Moving head right"
  | stateSet name => "Changing state to " ++ Text.inQuotes name
  | written c => "Writing " ++ Text.inQuotes [c] ++ " to tape"
  | invalid text => "Invalid input " ++ Text.inQuotes text
  | quit => "Quit"

end Outcome

/-- The attempts of a batch so far, the newest first, each with the machine after it. -/
structure Batch where
  start : Machine
  trail : List (Attempt × Machine)
  deriving DecidableEq

namespace Batch

def machine (b : Batch) : Machine :=
  match b.trail with
  | [] => b.start
  | (_, m) :: _ => m

def last? (b : Batch) : Option Attempt := b.trail.head?.map (·.1)

def isOver (b : Batch) : Bool :=
  match b.trail with
  | [] => false
  | (attempt, m) :: _ => !attempt.isApplied || m.isHalted

def attempt (b : Batch) : Batch := { b with trail := b.machine.step :: b.trail }

def run : Nat → Batch → Batch
  | 0, b => b
  | n + 1, b => if b.isOver then b else run n b.attempt

theorem run_of_isOver {b : Batch} (h : b.isOver = true) (n : Nat) : run n b = b := by
  cases n with
  | zero => rfl
  | succ n => rw [run, if_pos h]

theorem run_add (n k : Nat) (b : Batch) : run (n + k) b = run k (run n b) := by
  induction n generalizing b with
  | zero => rw [Nat.zero_add, run]
  | succ n ih =>
    rw [Nat.succ_add, run, run]
    split
    next h => rw [run_of_isOver h]
    next => exact ih b.attempt

def performed (b : Batch) : Nat := b.trail.countP (·.1.isApplied)

def views (b : Batch) : List View := b.trail.reverse.map fun (attempt, m) => m.view (some attempt)

def outcome (requested : Nat) (b : Batch) : Outcome :=
  .stepped requested b.performed b.last? b.machine.isHalted

end Batch

/-- What came of a command, the machine after it and what was shown. -/
structure Response where
  machine : Machine
  outcome : Outcome
  views : List View
  deriving DecidableEq

namespace Machine

def respond (m : Machine) (outcome : Outcome) : Response := ⟨m, outcome, [m.view none]⟩

def advance (n : Nat) (m : Machine) : Response :=
  if m.isHalted then m.respond (.halted m.steps)
  else
    let b := Batch.run n ⟨m, []⟩
    ⟨b.machine, b.outcome n, b.views⟩

def execute (m : Machine) : Command → Response
  | .step n => m.advance n
  | .move d => (m.moveHead d).respond (.moved d)
  | .setState name => (m.setState name).respond (.stateSet name)
  | .write c =>
    match m.writeSymbol c with
    | .ok m => m.respond (.written c)
    | .error _ => m.respond (.invalid ['+', c])
  | .quit => ⟨m, .quit, []⟩
  | .invalid text => m.respond (.invalid text)

end Machine

inductive Event
  | frame (view : View)
  | status (outcome : Outcome)
  | prompt
  deriving DecidableEq

/-- What a session shows and the machine at its end. -/
structure Transcript where
  events : List Event
  machine : Machine
  deriving DecidableEq

def Response.events (r : Response) : List Event :=
  r.views.map .frame ++ [.status r.outcome, .prompt]

namespace Session

/-- Executes a command and then those of the lines; the end of the lines ends the session. -/
def follow : Command → List (List Char) → Machine → Transcript
  | .quit, _, m => ⟨[], m⟩
  | command, [], m =>
    let r := m.execute command
    ⟨r.events, r.machine⟩
  | command, line :: lines, m =>
    let r := m.execute command
    let rest := follow (Command.ofLine line) lines r.machine
    ⟨r.events ++ rest.events, rest.machine⟩

def run (lines : List (List Char)) (m : Machine) : Transcript := follow (.step 1) lines m

end Session

end TapeMachine
