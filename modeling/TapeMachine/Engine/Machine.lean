import TapeMachine.Failure
/-!
# The machine

A machine is a program with a tape, a current state and a number of steps taken. A step applies the
transition that the table finds for the state and the symbol under the head; without one, nothing
changes.
-/
namespace TapeMachine

structure Machine where
  program : Program
  tape : Tape
  state : Name
  steps : Nat
  deriving DecidableEq

/-- What came of an attempt to take a step. -/
inductive Attempt
  | applied (t : Transition)
  | refused (state : Name) (cell : Char)
  deriving DecidableEq

def Attempt.isApplied : Attempt → Bool
  | applied _ => true
  | refused _ _ => false

namespace Machine

def ofProgram (p : Program) : Machine := ⟨p, p.tape, p.initial, 0⟩

def reading (m : Machine) : Char := m.tape.cell

def isHalted (m : Machine) : Bool := m.program.halts.contains m.state

def next? (m : Machine) : Option Transition := m.program.table.lookup m.state m.reading

def applyTransition (t : Transition) (m : Machine) : Machine :=
  { m with
    tape := (m.tape.write t.write).move t.direction
    state := t.target
    steps := m.steps + 1 }

/-- Attempts a step: what stands under the head is read from the tape and looked up. -/
def step (m : Machine) : Attempt × Machine :=
  let (cell, tape) := m.tape.read
  let m := { m with tape }
  match m.program.table.lookup m.state cell with
  | some t => (.applied t, m.applyTransition t)
  | none => (.refused m.state cell, m)

theorem step_of_some {m : Machine} {t : Transition} (h : m.next? = some t) :
    m.step = (.applied t, m.applyTransition t) := by
  have hl : m.program.table.lookup m.state m.tape.cell = some t := h
  simp only [step, Tape.read_eq, hl]

theorem step_of_none {m : Machine} (h : m.next? = none) :
    m.step = (.refused m.state m.reading, m) := by
  have hl : m.program.table.lookup m.state m.tape.cell = none := h
  simp only [step, Tape.read_eq, hl, reading]

def setState (name : Name) (m : Machine) : Machine := { m with state := name }

def moveHead (d : Direction) (m : Machine) : Machine := { m with tape := m.tape.move d }

def writeSymbol (c : Char) (m : Machine) : Except Failure Machine :=
  if m.program.alphabet.contains c then .ok { m with tape := m.tape.write (.char c) }
  else .error (.symbolOutsideAlphabet c)

/-- Whether a symbol may stand on a replaced tape; a blank always may. -/
def allows (m : Machine) (c : Char) : Bool :=
  c == Glyph.blank || m.program.alphabet.contains c

/-- Replaces the tape; the head is then on its first cell. -/
def setTape (content : List Char) (m : Machine) : Except Failure Machine :=
  match content.find? (!m.allows ·) with
  | some c => .error (.tapeOutsideAlphabet c)
  | none => .ok { m with tape := Tape.ofList content }

end Machine

end TapeMachine
