import TapeMachine.Proofs.Engine.Status
import TapeMachine.Proofs.Language.TapeAlphabet
/-!
# Operations on a machine

Between steps a machine can be changed by hand: its head is moved, its state set, a symbol written or
the tape replaced. Wherever the head stands in the row and whatever the state is, each operation
changes what it names and leaves the rest, and one that is refused changes nothing. A property that
steps and these changes keep holds after any operations (`Kept.performAll`).
-/
namespace TapeMachine

namespace Tape

theorem cells_write (symbol : Symbol) (t : Tape) :
    (t.write symbol).cells = t.cells.set t.head (symbol.writtenOver t.cell) := by
  have hlength : t.left.reverse.length = t.head := List.length_reverse
  rw [cells, cells, ← hlength, List.set_append_right _ _ (Nat.le_refl _), Nat.sub_self,
    List.set_cons_zero]
  rfl

/-- The row stays as long as it is exactly where the head stays inside it. -/
theorem size_move_eq_iff (d : Direction) (t : Tape) :
    (t.move d).size = t.size ↔ 0 ≤ t.head + d.shift ∧ t.head + d.shift < t.size := by
  obtain ⟨left, cell, right⟩ := t
  cases d with
  | left =>
    cases left with
    | nil => simp [move, size, head, Direction.shift, Nat.add_comm]
    | cons c left =>
      simp only [move, size, head, Direction.shift, List.tail_cons, List.length_cons]
      omega
  | right =>
    cases right with
    | nil => simp [move, size, head, Direction.shift]
    | cons c right =>
      simp only [move, size, head, Direction.shift, List.tail_cons, List.length_cons]
      omega
  | stay =>
    refine iff_of_true rfl ?_
    simp only [size, head, Direction.shift]
    omega

theorem cells_ofList_eq (content : List Char) :
    (ofList content).cells = if content = [] then [Glyph.blank] else content := by
  split
  next h =>
    rw [h]
    rfl
  next h => exact cells_ofList h

end Tape

/-- Whatever can be done to a machine. -/
inductive Operation
  | step
  | execute (c : Command)
  | moveHead (d : Direction)
  | setState (name : Name)
  | writeSymbol (c : Char)
  | setTape (content : List Char)
  deriving DecidableEq

namespace Machine

/-- The machine after an operation; one that is refused leaves it as it is. -/
def perform (m : Machine) : Operation → Machine
  | .step => m.step.2
  | .execute c => (m.execute c).machine
  | .moveHead d => m.moveHead d
  | .setState name => m.setState name
  | .writeSymbol c => (m.writeSymbol c).toOption.getD m
  | .setTape content => (m.setTape content).toOption.getD m

def performAll (operations : List Operation) (m : Machine) : Machine := operations.foldl perform m

theorem writeSymbol_of_mem {m : Machine} {c : Char} (h : c ∈ m.program.alphabet) :
    m.writeSymbol c = .ok { m with tape := m.tape.write (.char c) } :=
  if_pos (List.contains_iff_mem.mpr h)

theorem writeSymbol_of_not_mem {m : Machine} {c : Char} (h : c ∉ m.program.alphabet) :
    m.writeSymbol c = .error (.symbolOutsideAlphabet c) :=
  if_neg fun hc => h (List.contains_iff_mem.mp hc)

theorem setTape_of_allowed {m : Machine} {content : List Char}
    (h : ∀ c ∈ content, c = Glyph.blank ∨ c ∈ m.program.alphabet) :
    m.setTape content = .ok { m with tape := Tape.ofList content } := by
  have hfind : content.find? (!m.allows ·) = none := by
    rw [List.find?_eq_none]
    intro c hc
    simp [allows_iff.mpr (h c hc)]
  rw [setTape, hfind]

theorem setTape_of_outside {m : Machine} {content : List Char}
    (h : ¬ ∀ c ∈ content, c = Glyph.blank ∨ c ∈ m.program.alphabet) :
    ∃ front c back, content = front ++ c :: back ∧
      (∀ x ∈ front, x = Glyph.blank ∨ x ∈ m.program.alphabet) ∧
      m.setTape content = .error (.tapeOutsideAlphabet c) := by
  cases hfind : content.find? (!m.allows ·) with
  | none =>
    refine absurd (fun c hc => allows_iff.mp ?_) h
    simpa using List.find?_eq_none.mp hfind c hc
  | some c =>
    obtain ⟨-, front, back, hcontent, hfront⟩ := List.find?_eq_some_iff_append.mp hfind
    refine ⟨front, c, back, hcontent, ?_, by rw [setTape, hfind]⟩
    intro x hx
    exact allows_iff.mp (by simpa using hfront x hx)

/-- A property that a step keeps, and every change by hand that is not refused. -/
structure Kept (P : Machine → Prop) : Prop where
  step : ∀ m, P m → P m.step.2
  moveHead : ∀ m d, P m → P (m.moveHead d)
  setState : ∀ m name, P m → P (m.setState name)
  write : ∀ m, ∀ c ∈ m.program.alphabet, P m → P { m with tape := m.tape.write (.char c) }
  replace : ∀ m content, (∀ c ∈ content, c = Glyph.blank ∨ c ∈ m.program.alphabet) → P m →
    P { m with tape := Tape.ofList content }

namespace Kept

variable {P : Machine → Prop} {m : Machine}

theorem batch (h : Kept P) {b : Batch} (hb : P b.machine) (n : Nat) : P (b.run n).machine := by
  -- By induction on the attempts that may still be made.
  induction n generalizing b with
  | zero => exact hb
  | succ n ih =>
    rw [Batch.run]
    split
    · exact hb
    · exact ih (h.step _ hb)

theorem writeSymbol (h : Kept P) (hm : P m) {next : Machine} {c : Char}
    (hwrite : m.writeSymbol c = .ok next) : P next := by
  by_cases hc : c ∈ m.program.alphabet
  · rw [writeSymbol_of_mem hc] at hwrite
    cases hwrite
    exact h.write m c hc hm
  · rw [writeSymbol_of_not_mem hc] at hwrite
    cases hwrite

theorem setTape (h : Kept P) (hm : P m) {next : Machine} {content : List Char}
    (htape : m.setTape content = .ok next) : P next := by
  by_cases hallowed : ∀ c ∈ content, c = Glyph.blank ∨ c ∈ m.program.alphabet
  · rw [setTape_of_allowed hallowed] at htape
    cases htape
    exact h.replace m content hallowed hm
  · obtain ⟨_, _, _, -, -, hrefused⟩ := setTape_of_outside hallowed
    rw [hrefused] at htape
    cases htape

theorem execute (h : Kept P) (hm : P m) (c : Command) : P (m.execute c).machine := by
  cases c with
  | step n =>
    rw [Machine.execute, advance]
    split
    · exact hm
    · exact h.batch (b := ⟨m, []⟩) hm n
  | move d => exact h.moveHead m d hm
  | setState name => exact h.setState m name hm
  | write c =>
    rw [Machine.execute]
    cases hwrite : m.writeSymbol c with
    | ok next => exact h.writeSymbol hm hwrite
    | error failure => exact hm
  | quit => exact hm
  | invalid text => exact hm

theorem perform (h : Kept P) (hm : P m) (operation : Operation) : P (m.perform operation) := by
  cases operation with
  | step => exact h.step m hm
  | execute c => exact h.execute hm c
  | moveHead d => exact h.moveHead m d hm
  | setState name => exact h.setState m name hm
  | writeSymbol c =>
    rw [Machine.perform]
    cases hwrite : m.writeSymbol c with
    | ok next => exact h.writeSymbol hm hwrite
    | error failure => exact hm
  | setTape content =>
    rw [Machine.perform]
    cases htape : m.setTape content with
    | ok next => exact h.setTape hm htape
    | error failure => exact hm

theorem performAll (h : Kept P) (hm : P m) (operations : List Operation) :
    P (m.performAll operations) := by
  -- By induction on the operations: what each of them keeps holds after all of them.
  induction operations generalizing m with
  | nil => exact hm
  | cons operation operations ih => exact ih (h.perform hm operation)

end Kept

/--
What is done to a machine by hand, at either end of the row and in every state. The head moves by one
cell, and a blank is added exactly where it leaves the row. The state is set, and need not be known. A
symbol of the alphabet is written under the head; for any other one the machine stays as it is. The
tape is replaced, and the head put on its first cell, unless a symbol may not stand there; then the
machine stays as it is, and the first such symbol is named. All else stays: the table, the alphabet
and the states that halt, and what is not named of tape, state and steps. A command shows the machine
after it once, a quit shows nothing.
-/
theorem execute_changes_only (m : Machine) :
    (∀ d, ∃ tape, let next := { m with tape }
      m.tape.Shifts d tape ∧ (∀ i, tape.seen i = m.tape.seen (i + d.shift)) ∧
      (tape.size = m.tape.size ↔
        0 ≤ m.tape.head + d.shift ∧ m.tape.head + d.shift < m.tape.size) ∧
      m.moveHead d = next ∧ m.execute (.move d) = ⟨next, .moved d, [next.view none]⟩) ∧
    (∀ name, let next := { m with state := name }
      m.setState name = next ∧
        m.execute (.setState name) = ⟨next, .stateSet name, [next.view none]⟩) ∧
    (∀ c ∈ m.program.alphabet, ∃ tape, let next := { m with tape }
      tape.head = m.tape.head ∧ tape.cells = m.tape.cells.set m.tape.head c ∧
      m.writeSymbol c = .ok next ∧
        m.execute (.write c) = ⟨next, .written c, [next.view none]⟩) ∧
    (∀ c ∉ m.program.alphabet, m.writeSymbol c = .error (.symbolOutsideAlphabet c) ∧
      m.perform (.writeSymbol c) = m ∧
        m.execute (.write c) = ⟨m, .invalid ['+', c], [m.view none]⟩) ∧
    (∀ text, m.execute (.invalid text) = ⟨m, .invalid text, [m.view none]⟩) ∧
    m.execute .quit = ⟨m, .quit, []⟩ ∧
    (∀ content, (∀ c ∈ content, c = Glyph.blank ∨ c ∈ m.program.alphabet) →
      ∃ tape, tape.cells = (if content = [] then [Glyph.blank] else content) ∧ tape.head = 0 ∧
        m.setTape content = .ok { m with tape }) ∧
    (∀ content, (∃ c ∈ content, c ≠ Glyph.blank ∧ c ∉ m.program.alphabet) →
      m.perform (.setTape content) = m ∧
      ∃ front c back, content = front ++ c :: back ∧
        (∀ x ∈ front, x = Glyph.blank ∨ x ∈ m.program.alphabet) ∧
        m.setTape content = .error (.tapeOutsideAlphabet c)) := by
  refine ⟨?_, fun name => ⟨rfl, rfl⟩, ?_, ?_, fun text => rfl, rfl, ?_, ?_⟩
  · intro d
    refine ⟨m.tape.move d, m.tape.shifts_move d, ?_, m.tape.size_move_eq_iff d, rfl, rfl⟩
    intro i
    rw [← Tape.view_eq_seen, Tape.view_move, Tape.view_eq_seen]
  · intro c hc
    have hwrite := writeSymbol_of_mem hc
    refine ⟨m.tape.write (.char c), rfl, m.tape.cells_write (.char c), hwrite, ?_⟩
    rw [execute, hwrite]
    rfl
  · intro c hc
    have hrefused := writeSymbol_of_not_mem hc
    refine ⟨hrefused, by rw [perform, hrefused]; rfl, ?_⟩
    rw [execute, hrefused]
    rfl
  · intro content hallowed
    exact ⟨Tape.ofList content, Tape.cells_ofList_eq content, Tape.head_ofList content,
      setTape_of_allowed hallowed⟩
  · rintro content ⟨x, hx, hblank, houtside⟩
    have hnot : ¬ ∀ c ∈ content, c = Glyph.blank ∨ c ∈ m.program.alphabet :=
      fun h => (h x hx).elim hblank houtside
    obtain ⟨front, c, back, hcontent, hfront, hrefused⟩ := setTape_of_outside hnot
    refine ⟨?_, front, c, back, hcontent, hfront, hrefused⟩
    rw [perform, hrefused]
    rfl

/-- In a state that halts, on a row of one cell: the head moves off the row to the left, a symbol
outside the alphabet is refused, and so is a tape for its second symbol. -/
theorem execute_changes_only_erasing :
    let m : Machine := { Machine.ofProgram erasing with tape := Tape.ofList ['1'], state := Name.halt }
    (∃ tape, m.tape.Shifts .left tape ∧ tape.size ≠ m.tape.size ∧
      m.moveHead .left = { m with tape }) ∧
    (∃ tape, tape.cells = ['_'] ∧ m.writeSymbol '_' = .ok { m with tape }) ∧
    m.execute (.write '0') = ⟨m, .invalid ['+', '0'], [m.view none]⟩ ∧
    (∃ tape, tape.cells = ['1', '_', '1'] ∧ m.setTape ['1', '_', '1'] = .ok { m with tape }) ∧
    m.perform (.setTape ['1', '0']) = m := by
  intro m
  obtain ⟨hmove, -, hwrite, hrefused, -, -, htape, hkept⟩ := execute_changes_only m
  obtain ⟨moved, hshifts, -, hsize, hmoved, -⟩ := hmove .left
  obtain ⟨written, -, hcells, hwritten, -⟩ := hwrite '_' (by decide)
  have hallowed : ∀ c ∈ ['1', '_', '1'], c = Glyph.blank ∨ c ∈ m.program.alphabet := by
    intro c hc
    simp only [List.mem_cons, List.not_mem_nil, or_false] at hc
    rcases hc with rfl | rfl | rfl
    all_goals decide
  obtain ⟨replaced, hcontent, -, hreplaced⟩ := htape ['1', '_', '1'] hallowed
  have houtside : '0' ∉ m.program.alphabet := by decide
  obtain ⟨hsame, -⟩ := hkept ['1', '0'] ⟨'0', by simp, by decide, houtside⟩
  refine ⟨⟨moved, hshifts, ?_, hmoved⟩, ⟨written, hcells, hwritten⟩, (hrefused '0' houtside).2.2,
    ⟨replaced, hcontent, hreplaced⟩, hsame⟩
  rw [ne_eq, hsize]
  decide

end Machine

end TapeMachine
