import TapeMachine.Proofs.Engine.Batches
import Mathlib.Logic.Function.Basic
/-!
# What a status says

A command ends with a status, a line of text. The text tells the status (`Status.text_injective`),
and a status says something about the machine before the command and after it (`Status.Holds`). It
is always so (`execute_truthful`), with one exception: a command that moves the head nowhere is
answered as one that moves it to the right.
-/
namespace TapeMachine

/-- What the line of text at the end of a command can say. -/
inductive Status
  | leftward
  | rightward
  | single
  | skipped (count : Nat)
  | haltedAfter (count : Nat)
  | missing (state : Name) (cell : Char) (count requested : Nat)
  | haltedAt (steps : Nat)
  | stateSet (name : Name)
  | written (c : Char)
  | invalid (text : List Char)
  | quit

namespace Status

def parts : Status → List String
  | leftward => ["Moving head left"]
  | rightward => ["Moving head right"]
  | single => ["Stepped one step"]
  | skipped count => ["Skipped forward ", toString count, " steps"]
  | haltedAfter count => ["Halted after ", toString count, " steps"]
  | missing state cell count requested =>
    ["No transition for state ", Text.inQuotes state, " reading ", Text.inQuotes [cell],
      " after ", toString count, " of ", toString requested, " steps"]
  | haltedAt steps => ["HALTED at step ", toString steps]
  | stateSet name => ["Changing state to ", Text.inQuotes name]
  | written c => ["Writing ", Text.inQuotes [c], " to tape"]
  | invalid text => ["Invalid input ", Text.inQuotes text]
  | quit => ["Quit"]

def text (status : Status) : String := String.join status.parts

theorem toList_text (status : Status) : status.text.toList = status.parts.flatMap String.toList :=
  String.toList_join

private def opening : Status → List Char
  | leftward | rightward => ['M', 'o']
  | single => ['S', 't']
  | skipped _ => ['S', 'k']
  | haltedAfter _ => ['H', 'a']
  | missing _ _ _ _ => ['N', 'o']
  | haltedAt _ => ['H', 'A']
  | stateSet _ => ['C', 'h']
  | written _ => ['W', 'r']
  | invalid _ => ['I', 'n']
  | quit => ['Q', 'u']

private theorem take_text (status : Status) : status.text.toList.take 2 = status.opening := by
  rw [toList_text]
  cases status <;> simp [parts, opening]

private theorem toList_inQuotes (text : List Char) :
    (Text.inQuotes text).toList = '\'' :: (text ++ ['\'']) := by
  simp [Text.inQuotes]

private theorem decimal_injective {a b : Nat} (h : Text.decimal a = Text.decimal b) : a = b :=
  (Text.append_decimal (s := []) (t := []) h nofun nofun).2

/-- Its parts are read off from the right, as a name may hold anything. -/
private theorem missing_injective {s s' : Name} {c c' : Char} {k k' n n' : Nat}
    (h : (missing s c k n).text = (missing s' c' k' n').text) :
    missing s c k n = missing s' c' k' n' := by
  have hlist := congrArg String.toList h
  simp only [toList_text, parts, List.flatMap_cons, List.flatMap_nil, Text.toList_toString,
    toList_inQuotes, List.append_nil, ← List.append_assoc] at hlist
  have hspace : ∀ (front : List Char) (word : String), word.toList.getLast? = some ' ' →
      ∀ x ∈ (front ++ word.toList).getLast?, x.isDigit = false := by
    intro front word hword x hx
    rw [List.getLast?_append, hword] at hx
    cases hx
    rfl
  obtain ⟨hof, rfl⟩ := Text.append_decimal (List.append_cancel_right hlist)
    (hspace _ " of " (by simp)) (hspace _ " of " (by simp))
  obtain ⟨hafter, rfl⟩ := Text.append_decimal (List.append_cancel_right hof)
    (hspace _ " after " (by simp)) (hspace _ " after " (by simp))
  obtain ⟨hreading, hcell⟩ := List.append_inj' (List.append_cancel_right hafter) rfl
  obtain ⟨-, hstate⟩ := List.append_inj (List.append_cancel_right hreading) rfl
  have hstate : s = s' := List.append_cancel_right (List.cons.inj hstate).2
  have hcell : c = c' := (List.cons.inj (List.cons.inj hcell).2).1
  rw [hstate, hcell]

theorem text_injective : Function.Injective text := by
  intro a b h
  have hopening : a.opening = b.opening := by rw [← take_text, ← take_text, h]
  have hlist := congrArg String.toList h
  simp only [toList_text] at hlist
  -- Two statuses of different kinds begin differently, but for the two ways the head moves.
  cases a <;> cases b <;> try (simp [opening] at hopening; done)
  case leftward.leftward => rfl
  case leftward.rightward => exact absurd hlist (by simp [parts])
  case rightward.leftward => exact absurd hlist (by simp [parts])
  case rightward.rightward => rfl
  case single.single => rfl
  case skipped.skipped k k' =>
    simp only [parts, List.flatMap_cons, List.flatMap_nil, Text.toList_toString] at hlist
    rw [decimal_injective (List.append_cancel_right (List.append_cancel_left hlist))]
  case haltedAfter.haltedAfter k k' =>
    simp only [parts, List.flatMap_cons, List.flatMap_nil, Text.toList_toString] at hlist
    rw [decimal_injective (List.append_cancel_right (List.append_cancel_left hlist))]
  case missing.missing => exact missing_injective h
  case haltedAt.haltedAt k k' =>
    simp only [parts, List.flatMap_cons, List.flatMap_nil, Text.toList_toString] at hlist
    rw [decimal_injective (List.append_cancel_right (List.append_cancel_left hlist))]
  case stateSet.stateSet name name' =>
    simpa [parts, toList_inQuotes] using hlist
  case written.written c c' =>
    simpa [parts, toList_inQuotes] using hlist
  case invalid.invalid text text' =>
    simpa [parts, toList_inQuotes] using hlist
  case quit.quit => rfl

end Status

namespace Outcome

def status : Outcome → Status
  | stepped requested performed (some (.refused state cell)) _ =>
    .missing state cell performed requested
  | stepped requested performed _ stopped =>
    if stopped then .haltedAfter performed
    else if requested = 1 then .single
    else .skipped performed
  | halted steps => .haltedAt steps
  | moved .left => .leftward
  | moved _ => .rightward
  | stateSet name => .stateSet name
  | written c => .written c
  | invalid text => .invalid text
  | quit => .quit

theorem message_eq_text (outcome : Outcome) : outcome.message = outcome.status.text := by
  have hbatch : ∀ requested performed stopped, batchMessage requested performed stopped =
      (if stopped then Status.haltedAfter performed
        else if requested = 1 then .single else .skipped performed).text := by
    intro requested performed stopped
    rw [batchMessage]
    split
    · rfl
    · split
      · rfl
      · rfl
  cases outcome with
  | stepped requested performed last stopped =>
    cases last with
    | none => exact hbatch requested performed stopped
    | some attempt =>
      cases attempt with
      | applied t => exact hbatch requested performed stopped
      | refused state cell => rfl
  | moved d => cases d <;> rfl
  | halted steps => rfl
  | stateSet name => rfl
  | written c => rfl
  | invalid text => rfl
  | quit => rfl

end Outcome

/-- The head moves by one cell at most and no cell changes; a blank is added where the row ends. -/
def Tape.Shifts (d : Direction) (before after : Tape) : Prop :=
  ∃ l r, after.cells = List.replicate l Glyph.blank ++ before.cells ++ List.replicate r Glyph.blank ∧
    l + r ≤ 1 ∧ (after.head : Int) = before.head + l + d.shift

theorem Tape.shifts_move (d : Direction) (t : Tape) : t.Shifts d (t.move d) := by
  obtain ⟨left, cell, right⟩ := t
  cases d with
  | left =>
    cases left with
    | nil => exact ⟨1, 0, by simp [move, cells], by decide, by simp [move, head, Direction.shift]⟩
    | cons c left =>
      refine ⟨0, 0, by simp [move, cells], by decide, ?_⟩
      simp only [move, head, Direction.shift, List.tail_cons, List.length_cons]
      omega
  | right =>
    cases right with
    | nil => exact ⟨0, 1, by simp [move, cells], by decide, by simp [move, head, Direction.shift]⟩
    | cons c right =>
      exact ⟨0, 0, by simp [move, cells], by decide, by simp [move, head, Direction.shift]⟩
  | stay => exact ⟨0, 0, by simp [move], by decide, by simp [move, Direction.shift]⟩

/-- One machine comes from another by exactly `k` transitions. -/
inductive Machine.Advances (m : Machine) : Nat → Machine → Prop
  | refl : Advances m 0 m
  | next {k : Nat} {n : Machine} {t : Transition} (h : Advances m k n) (ht : n.next? = some t) :
      Advances m (k + 1) (n.applyTransition t)

theorem Machine.Advances.steps {m n : Machine} {k : Nat} (h : m.Advances k n) :
    n.steps = m.steps + k := by
  induction h with
  | refl => rfl
  | next _ _ ih => rw [applyTransition, ih, Nat.add_assoc]

def Status.Holds (before : Machine) (c : Command) (after : Machine) : Status → Prop
  | leftward => before.tape.Shifts .left after.tape ∧ after = { before with tape := after.tape }
  | rightward => before.tape.Shifts .right after.tape ∧ after = { before with tape := after.tape }
  | single => c = .step 1 ∧ before.Advances 1 after ∧ after.isHalted = false
  | skipped count => c = .step count ∧ before.Advances count after ∧ after.isHalted = false
  | haltedAfter count => before.Advances count after ∧ after.isHalted = true
  | missing state cell count requested =>
    c = .step requested ∧ before.Advances count after ∧ after.state = state ∧
      after.reading = cell ∧
      ∀ t ∈ after.program.table.rules state ++ after.program.table.rules Name.anonymous,
        t.accepts cell = false
  | haltedAt steps => after = before ∧ before.isHalted = true ∧ before.steps = steps
  | stateSet name => after = before.setState name
  | written c => before.writeSymbol c = .ok after
  | invalid _ | quit => after = before

namespace Batch

/-- What was performed led from a machine to that of the batch; a last attempt that was refused
changed nothing. -/
structure Counted (m : Machine) (b : Batch) : Prop where
  advances : m.Advances b.performed b.machine
  refused : ∀ state cell, b.last? = some (.refused state cell) →
    b.machine.state = state ∧ b.machine.reading = cell ∧ b.machine.next? = none

theorem counted_nil (m : Machine) : (⟨m, []⟩ : Batch).Counted m where
  advances := .refl
  refused := nofun

theorem Counted.attempt {m : Machine} {b : Batch} (h : b.Counted m) : b.attempt.Counted m := by
  cases hnext : b.machine.next? with
  | none =>
    have hstep := Machine.step_of_none hnext
    refine ⟨?_, ?_⟩
    · rw [performed_attempt, machine_attempt, hstep]
      exact h.advances
    · intro state cell hlast
      rw [last?_attempt, hstep] at hlast
      rw [machine_attempt, hstep]
      cases hlast
      exact ⟨rfl, rfl, hnext⟩
  | some t =>
    have hstep := Machine.step_of_some hnext
    refine ⟨?_, ?_⟩
    · rw [performed_attempt, machine_attempt, hstep]
      exact h.advances.next hnext
    · intro state cell hlast
      rw [last?_attempt, hstep] at hlast
      cases hlast

theorem Counted.run {m : Machine} {b : Batch} (h : b.Counted m) (n : Nat) :
    (b.run n).Counted m := by
  -- By induction on the attempts that may still be made.
  induction n generalizing b with
  | zero => exact h
  | succ n ih =>
    rw [Batch.run]
    split
    · exact h
    · exact ih h.attempt

end Batch

namespace Machine

theorem accepts_of_next?_eq_none {m : Machine} (h : m.next? = none) :
    ∀ t ∈ m.program.table.rules m.state ++ m.program.table.rules Name.anonymous,
      t.accepts m.reading = false := by
  rw [next?, Table.lookup_eq_find?, List.find?_eq_none] at h
  exact fun t ht => Bool.eq_false_iff.mpr (h t ht)

private theorem performed_of_running {m : Machine} (hm : m.isHalted = false) (n : Nat)
    (hlast : ¬ (Batch.run n ⟨m, []⟩).last?.any Attempt.isRefused = true)
    (hstopped : (Batch.run n ⟨m, []⟩).machine.isHalted = false) :
    (Batch.run n ⟨m, []⟩).performed = n := by
  obtain ⟨htallied, -, hall⟩ := Batch.tallied_run hm n
  have hover : (Batch.run n ⟨m, []⟩).isOver = false := by
    rw [Bool.eq_false_iff, ne_eq, Batch.isOver_iff, hstopped]
    simp [hlast]
  have hlength := htallied.length
  rw [hall hover, if_neg hlast] at hlength
  exact hlength.symm

private theorem holds_step {m : Machine} (hm : m.isHalted = false) (n : Nat) :
    (m.execute (.step n)).outcome.status.Holds m (.step n) (m.execute (.step n)).machine := by
  rw [execute_step_of_running hm]
  let b := Batch.run n ⟨m, []⟩
  have hcounted : b.Counted m := (Batch.counted_nil m).run n
  have hbatch : ¬ b.last?.any Attempt.isRefused = true →
      Status.Holds m (.step n) b.machine (if b.machine.isHalted then .haltedAfter b.performed
        else if n = 1 then .single else .skipped b.performed) := by
    intro hlast
    cases hstopped : b.machine.isHalted with
    | true => exact ⟨hcounted.advances, hstopped⟩
    | false =>
      have hperformed : b.performed = n := performed_of_running hm n hlast hstopped
      have hadvances : m.Advances n b.machine := hperformed ▸ hcounted.advances
      rw [if_neg Bool.false_ne_true, hperformed]
      split
      next hn =>
        subst hn
        exact ⟨rfl, hadvances, hstopped⟩
      next => exact ⟨rfl, hadvances, hstopped⟩
  change Status.Holds m (.step n) b.machine
    (Outcome.stepped n b.performed b.last? b.machine.isHalted).status
  cases hlast : b.last? with
  | none =>
    rw [hlast] at hbatch
    exact hbatch Bool.false_ne_true
  | some attempt =>
    rw [hlast] at hbatch
    cases attempt with
    | applied t => exact hbatch Bool.false_ne_true
    | refused state cell =>
      obtain ⟨hstate, hcell, hnext⟩ := hcounted.refused state cell hlast
      have hnone := accepts_of_next?_eq_none hnext
      rw [hstate, hcell] at hnone
      exact ⟨rfl, hcounted.advances, hstate, hcell, hnone⟩

/-- What the status of a command claims is so, unless the head is moved nowhere. -/
private theorem holds_execute (m : Machine) {c : Command} (hc : c ≠ .move .stay) :
    (m.execute c).outcome.status.Holds m c (m.execute c).machine := by
  cases c with
  | step n =>
    cases hm : m.isHalted with
    | true =>
      rw [execute_step_of_isHalted hm]
      exact ⟨rfl, hm, rfl⟩
    | false => exact holds_step hm n
  | move d =>
    cases d with
    | left => exact ⟨Tape.shifts_move .left m.tape, rfl⟩
    | right => exact ⟨Tape.shifts_move .right m.tape, rfl⟩
    | stay => exact absurd rfl hc
  | setState name => rfl
  | write c =>
    rw [execute]
    cases hwrite : m.writeSymbol c with
    | ok next => exact hwrite
    | error failure => rfl
  | quit => rfl
  | invalid text => rfl

/--
The status that ends a command is the only one with its text, and what it claims is so: of the
command, of the machine before it and of the one after it. The exception is a command that moves
the head nowhere, which says that it moves right and changes nothing. One step is reported exactly
where one step was asked for and taken, and the machine goes on.
-/
theorem execute_truthful (m : Machine) (c : Command) :
    let r := m.execute c
    (∃ status : Status, r.outcome.message = status.text) ∧
    (∀ status : Status, r.outcome.message = status.text → c ≠ .move .stay →
      status.Holds m c r.machine) ∧
    (c = .move .stay → r.outcome.message = Status.rightward.text ∧ r.machine = m) ∧
    (r.outcome.message = Status.single.text ↔
      c = .step 1 ∧ m.Advances 1 r.machine ∧ r.machine.isHalted = false) := by
  intro r
  have hmessage : r.outcome.message = r.outcome.status.text := r.outcome.message_eq_text
  have hholds : ∀ status : Status, r.outcome.message = status.text → c ≠ .move .stay →
      status.Holds m c r.machine := by
    intro status htext hc
    rw [← Status.text_injective (hmessage.symm.trans htext)]
    exact holds_execute m hc
  refine ⟨⟨_, hmessage⟩, hholds, ?_, ?_⟩
  · rintro rfl
    exact ⟨rfl, rfl⟩
  · constructor
    · intro htext
      refine hholds .single htext ?_
      rintro rfl
      exact Status.noConfusion (Status.text_injective (hmessage.symm.trans htext))
    · rintro ⟨rfl, hadvances, hrunning⟩
      have hfree : ¬ (m.isHalted = true ∨ m.next? = none) := by
        intro hstuck
        have hsteps := hadvances.steps
        rw [(execute_step_of_stuck hstuck 1).1] at hsteps
        omega
      obtain ⟨hm, hnext⟩ := not_or.mp hfree
      obtain ⟨t, ht⟩ := Option.ne_none_iff_exists'.mp hnext
      have houtcome : r.outcome = .stepped 1 1 (some (.applied t)) r.machine.isHalted := by
        have hrun : Batch.run 1 ⟨m, []⟩ = ⟨m, [(.applied t, m.applyTransition t)]⟩ := by
          rw [← step_of_some ht]
          rfl
        have hr : r = _ := execute_step_of_running (Bool.eq_false_iff.mpr hm) 1
        rw [hr, hrun]
        rfl
      rw [hmessage, houtcome, hrunning]
      rfl

/-- On a tape of one symbol the head moves off the row to the left; a step is taken there, and a
second one finds no transition. -/
theorem execute_truthful_erasing :
    let m : Machine := { Machine.ofProgram erasing with tape := Tape.ofList ['1'] }
    m.tape.Shifts .left (m.execute (.move .left)).machine.tape ∧
      (m.execute (.step 1)).outcome.message = Status.single.text ∧
      m.Advances 1 (m.execute (.step 2)).machine ∧ (m.execute (.step 2)).machine.reading = '_' := by
  intro m
  obtain ⟨-, hleft, -, -⟩ := execute_truthful m (.move .left)
  obtain ⟨-, -, -, hsingle⟩ := execute_truthful m (.step 1)
  obtain ⟨-, hmissing, -, -⟩ := execute_truthful m (.step 2)
  have hstays : Command.move .left ≠ .move .stay := by decide
  have hsteps : Command.step 2 ≠ .move .stay := by decide
  obtain ⟨hshifts, -⟩ := hleft .leftward rfl hstays
  obtain ⟨-, hadvances, -, hreading, -⟩ := hmissing (.missing ['q'] '_' 1 2) rfl hsteps
  have ht : m.next? = some ⟨['q'], .char '1', ['q'], .char '_', .right⟩ := by decide
  exact ⟨hshifts, hsingle.mpr ⟨rfl, .next .refl ht, by decide⟩, hadvances, hreading⟩

/-- Moved nowhere, the head is said to move to the right. -/
theorem execute_untruthful_stay :
    let m := Machine.ofProgram erasing
    (m.execute (.move .stay)).outcome.message = "Moving head right" ∧
      (m.execute (.move .stay)).machine = m ∧
      ¬ m.tape.Shifts .right (m.execute (.move .stay)).machine.tape := by
  intro m
  refine ⟨rfl, rfl, ?_⟩
  rintro ⟨l, r, -, -, hhead⟩
  change (0 : Int) = 0 + l + 1 at hhead
  omega

end Machine

end TapeMachine
