import TapeMachine.Engine.Machine
import TapeMachine.Proofs.Table.Rules
import Mathlib.Data.List.GetD
import Mathlib.Logic.Function.Basic
/-!
# Machines with an endless tape

In the textbook a tape has a cell at every integer and never grows. A machine whose row grows on
demand takes the same steps. The two are compared by what stands around the head, so it does not
matter where the row begins or how long it has become.
-/
namespace TapeMachine

/-- The content `i` places right of the head in the row, a blank where the row has no cell. -/
def Tape.seen (t : Tape) (i : Int) : Char :=
  if 0 ≤ t.head + i then t.cells.getD (t.head + i).toNat Glyph.blank else Glyph.blank

def Direction.shift : Direction → Int
  | left => -1
  | right => 1
  | stay => 0

/-- A machine in the middle of a run on a tape that has a cell at every integer. -/
structure Endless where
  state : Name
  steps : Nat
  head : Int
  cells : Int → Char

namespace Endless

/-- Writes under the head, moves it and enters the target. -/
def follow (t : Transition) (e : Endless) : Endless :=
  { state := t.target
    steps := e.steps + 1
    head := e.head + t.direction.shift
    cells := Function.update e.cells e.head (t.write.writtenOver (e.cells e.head)) }

/-- Attempts a step: the state's own transitions stand before those of the anonymous state. -/
def step (table : Table) (e : Endless) : Attempt × Endless :=
  let cell := e.cells e.head
  match (table.rules e.state ++ table.rules Name.anonymous).find? (·.accepts cell) with
  | some t => (.applied t, e.follow t)
  | none => (.refused e.state cell, e)

end Endless

/-- What comes of `k` attempts in a row, and what is there after them. -/
def attempts {σ : Type} (step : σ → Attempt × σ) : Nat → σ → List Attempt × σ
  | 0, s => ([], s)
  | k + 1, s =>
    let (first, next) := step s
    let (others, last) := attempts step k next
    (first :: others, last)

theorem attempts_succ {σ : Type} (step : σ → Attempt × σ) (k : Nat) (s : σ) :
    attempts step (k + 1) s =
      ((step s).1 :: (attempts step k (step s).2).1, (attempts step k (step s).2).2) := rfl

/-- Both are in the same state after the same number of steps and see the same from the head. -/
structure Machine.Shows (m : Machine) (e : Endless) : Prop where
  state : e.state = m.state
  steps : e.steps = m.steps
  cells : ∀ i, e.cells (e.head + i) = m.tape.seen i

def Machine.endless (m : Machine) : Endless := ⟨m.state, m.steps, 0, m.tape.seen⟩

namespace Tape

private theorem seen_in_row (t : Tape) (i : Int) (n : Nat) (hn : (t.head : Int) + i = n) :
    t.seen i = t.cells.getD n Glyph.blank := by
  rw [seen, hn, if_pos (Int.natCast_nonneg n), Int.toNat_natCast]

private theorem seen_left_of_row (t : Tape) (i : Int) (hi : (t.head : Int) + i < 0) :
    t.seen i = Glyph.blank :=
  if_neg (Int.not_le.mpr hi)

theorem view_eq_seen (t : Tape) (i : Int) : t.view i = t.seen i := by
  obtain ⟨left, cell, right⟩ := t
  have hlen : left.reverse.length = left.length := List.length_reverse
  have hhead : (⟨left, cell, right⟩ : Tape).head = left.length := rfl
  have hcells : (⟨left, cell, right⟩ : Tape).cells = left.reverse ++ cell :: right := rfl
  rcases i with (_ | n) | n
  · rw [seen_in_row _ _ left.length (by simp [hhead]), hcells,
      List.getD_append_right _ _ _ _ (by omega), hlen, Nat.sub_self]
    rfl
  · rw [seen_in_row _ _ (left.length + (n + 1)) (by simp [hhead]), hcells,
      List.getD_append_right _ _ _ _ (by omega), hlen, Nat.add_sub_cancel_left]
    rfl
  · by_cases hn : n < left.length
    · rw [seen_in_row _ _ (left.length - 1 - n) (by rw [hhead]; omega), hcells,
        List.getD_append _ _ _ _ (by omega)]
      simp only [view, List.getD_eq_getElem?_getD]
      rw [List.getElem?_reverse (by omega), show left.length - 1 - (left.length - 1 - n) = n by omega]
    · rw [seen_left_of_row _ _ (by rw [hhead]; omega)]
      exact List.getD_eq_default _ _ (Nat.not_lt.mp hn)

theorem view_move (d : Direction) (t : Tape) (i : Int) :
    (t.move d).view i = t.view (i + d.shift) := by
  cases d with
  | left => exact view_move_left t i
  | right => exact view_move_right t i
  | stay =>
    change t.view i = t.view (i + 0)
    rw [Int.add_zero]

theorem seen_move_write (d : Direction) (symbol : Symbol) (t : Tape) (i : Int) :
    ((t.write symbol).move d).seen i =
      Function.update t.seen 0 (symbol.writtenOver (t.seen 0)) (i + d.shift) := by
  rw [← view_eq_seen, view_move, view_write, Function.update_apply, view_eq_seen, view_eq_seen]

end Tape

/-- The transition looked up is the first that accepts, the state's own coming first. -/
theorem Table.lookup_eq_find? (table : Table) (name : Name) (cell : Char) :
    table.lookup name cell =
      (table.rules name ++ table.rules Name.anonymous).find? (·.accepts cell) := by
  have hown : ∀ x, table.own? x cell = (table.rules x).find? (·.accepts cell) := by
    intro x
    simp only [Table.own?, Table.rules]
    cases table.get? x with
    | none => rfl
    | some s => rfl
  rw [Table.lookup, hown, hown, List.find?_append]

namespace Machine

theorem reading_eq_seen (m : Machine) : m.reading = m.tape.seen 0 :=
  Tape.view_eq_seen m.tape 0

theorem shows_endless (m : Machine) : m.Shows m.endless := by
  refine ⟨rfl, rfl, ?_⟩
  intro i
  change m.tape.seen (0 + i) = m.tape.seen i
  rw [Int.zero_add]

private theorem shows_follow {m : Machine} {e : Endless} (h : m.Shows e) (t : Transition) :
    (m.applyTransition t).Shows (e.follow t) := by
  have hread : e.cells e.head = m.tape.seen 0 := by
    have h0 := h.cells 0
    rwa [Int.add_zero] at h0
  refine ⟨rfl, congrArg (· + 1) h.steps, ?_⟩
  intro i
  change Function.update e.cells e.head (t.write.writtenOver (e.cells e.head))
    (e.head + t.direction.shift + i) = ((m.tape.write t.write).move t.direction).seen i
  rw [Tape.seen_move_write, hread, Int.add_assoc, Int.add_comm t.direction.shift i]
  by_cases hi : i + t.direction.shift = 0
  · rw [hi, Int.add_zero, Function.update_self, Function.update_self]
  · rw [Function.update_of_ne (by omega), Function.update_of_ne hi, h.cells]

/-- One attempt on either tape has the same result and leaves the same to be seen. -/
private theorem shows_step {m : Machine} {e : Endless} (h : m.Shows e) :
    m.step.1 = (e.step m.program.table).1 ∧ m.step.2.program = m.program ∧
      m.step.2.Shows (e.step m.program.table).2 := by
  have hread : e.cells e.head = m.reading := by
    have h0 := h.cells 0
    rwa [Int.add_zero, ← reading_eq_seen] at h0
  have hnext : m.next? = (m.program.table.rules e.state ++
      m.program.table.rules Name.anonymous).find? (·.accepts (e.cells e.head)) := by
    rw [hread, h.state]
    exact Table.lookup_eq_find? _ _ _
  cases hn : m.next? with
  | some t =>
    have hs : e.step m.program.table = (.applied t, e.follow t) := by
      simp only [Endless.step, ← hnext, hn]
    rw [step_of_some hn, hs]
    exact ⟨rfl, rfl, shows_follow h t⟩
  | none =>
    have hs : e.step m.program.table = (.refused e.state (e.cells e.head), e) := by
      simp only [Endless.step, ← hnext, hn]
    rw [step_of_none hn, hs, hread, h.state]
    exact ⟨rfl, rfl, h⟩

private theorem shows_attempts (k : Nat) {m : Machine} {e : Endless} (h : m.Shows e) :
    (attempts step k m).1 = (attempts (Endless.step m.program.table) k e).1 ∧
      (attempts step k m).2.Shows (attempts (Endless.step m.program.table) k e).2 := by
  -- By induction on their number, attempts keep both machines in step.
  induction k generalizing m e with
  | zero => exact ⟨rfl, h⟩
  | succ k ih =>
    obtain ⟨hresult, hprogram, hshows⟩ := shows_step h
    have hrest := ih hshows
    rw [hprogram] at hrest
    rw [attempts_succ, attempts_succ]
    refine ⟨?_, hrest.2⟩
    rw [hresult, hrest.1]

/--
Every machine, whatever happened to it before, takes the steps of the textbook. If no rule of its
state or of the anonymous state accepts what is under the head, the attempt leaves the whole machine
as it is. Otherwise the first rule that accepts is applied. Any number of attempts has the results
they have on an endless tape and leaves the same to be seen.
-/
theorem attempts_eq_endless (m : Machine) (k : Nat) :
    let cell := m.tape.seen 0
    let rules := m.program.table.rules m.state ++ m.program.table.rules Name.anonymous
    ((∀ t ∈ rules, t.accepts cell = false) → m.step = (.refused m.state cell, m)) ∧
    (∀ passed t others, rules = passed ++ t :: others → (∀ u ∈ passed, u.accepts cell = false) →
      t.accepts cell = true →
      ∃ next, m.step = (.applied t, next) ∧ next.program = m.program ∧ next.state = t.target ∧
        next.steps = m.steps + 1 ∧
        ∀ i, next.tape.seen i =
          Function.update m.tape.seen 0 (t.write.writtenOver cell) (i + t.direction.shift)) ∧
    ∀ e, m.Shows e →
      (attempts step k m).1 = (attempts (Endless.step m.program.table) k e).1 ∧
        (attempts step k m).2.Shows (attempts (Endless.step m.program.table) k e).2 := by
  intro cell rules
  have hnext : m.next? = rules.find? (·.accepts cell) := by
    rw [next?, reading_eq_seen]
    exact Table.lookup_eq_find? _ _ _
  refine ⟨?_, ?_, fun e => shows_attempts k⟩
  · intro hnone
    have hn : m.next? = none := by
      rw [hnext, List.find?_eq_none]
      intro t ht
      rw [hnone t ht]
      exact Bool.false_ne_true
    rw [step_of_none hn, reading_eq_seen]
  · intro passed t others hrules hpassed ht
    have hn : m.next? = some t := by
      rw [hnext, List.find?_eq_some_iff_append]
      refine ⟨ht, passed, others, hrules, ?_⟩
      intro u hu
      rw [hpassed u hu]
      rfl
    refine ⟨m.applyTransition t, step_of_some hn, rfl, rfl, rfl, ?_⟩
    intro i
    exact Tape.seen_move_write t.direction t.write m.tape i

/-- In state `a` a zero becomes a one and the head moves left; any state halts on a blank. -/
def leftward (content : List Char) : Machine :=
  let inverting : Transition := ⟨['a'], .char '0', ['a'], .char '1', .left⟩
  let halting : Transition := ⟨Name.anonymous, .char Glyph.blank, Name.halt, .any, .stay⟩
  let table : Table := ⟨[⟨['a'], [inverting]⟩, ⟨Name.anonymous, [halting]⟩, ⟨Name.halt, []⟩]⟩
  ofProgram ⟨table, ['a'], [Name.halt], ['0', '1', Glyph.blank], Tape.ofList content⟩

/-- On the only zero of its tape the row grows left, on a letter nothing happens. -/
theorem attempts_eq_endless_leftward :
    (leftward ['x']).step = (.refused ['a'] 'x', leftward ['x']) ∧
    (∃ next, (leftward ['0']).step =
        (.applied ⟨['a'], .char '0', ['a'], .char '1', .left⟩, next) ∧
      next.steps = 1 ∧ next.tape.seen 0 = Glyph.blank ∧ next.tape.seen 1 = '1') ∧
    (attempts step 3 (leftward ['0'])).2.Shows
      (attempts (Endless.step (leftward ['0']).program.table) 3 (leftward ['0']).endless).2 := by
  obtain ⟨hrefused, -, -⟩ := attempts_eq_endless (leftward ['x']) 0
  obtain ⟨-, happlied, hrun⟩ := attempts_eq_endless (leftward ['0']) 3
  refine ⟨hrefused (by decide), ?_, (hrun _ (shows_endless _)).2⟩
  obtain ⟨next, hstep, -, -, hsteps, hseen⟩ :=
    happlied [] ⟨['a'], .char '0', ['a'], .char '1', .left⟩ _ rfl (by decide) (by decide)
  refine ⟨next, hstep, hsteps, ?_, ?_⟩
  · rw [hseen]
    decide
  · rw [hseen]
    decide

end Machine

end TapeMachine
