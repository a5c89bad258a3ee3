import TapeMachine.Proofs.Engine.Batches
/-!
# Runs that halt

A machine halts after a number of steps if it takes so many, each of them in a state that does not
halt, and is then in one that does. A batch of at least so many steps ends there (`Halts.execute`).
Runs are put together from single steps and sweeps: in a sweep the head goes along a row of cells in
one direction, and the machine stays in one state (`Runs.sweep`).
-/
namespace TapeMachine

namespace Tape

/-- The tape whose head stands on the first cell of `ahead` and looks along it in a direction; the
cells of `behind`, nearest first, are on its other side. -/
def facing (d : Direction) (ahead behind : List Char) : Tape :=
  match d with
  | .left => ⟨ahead.tail, ahead.headD Glyph.blank, behind⟩
  | .right | .stay => ⟨behind, ahead.headD Glyph.blank, ahead.tail⟩

theorem ofList_eq_facing (content : List Char) : ofList content = facing .right content [] := by
  cases content <;> rfl

theorem cell_facing (d : Direction) (ahead behind : List Char) :
    (facing d ahead behind).cell = ahead.headD Glyph.blank := by
  cases d <;> rfl

variable {d : Direction} (symbol : Symbol) (ahead behind : List Char)

theorem move_facing (hd : d ≠ .stay) :
    ((facing d ahead behind).write symbol).move d =
      facing d ahead.tail (symbol.writtenOver (ahead.headD Glyph.blank) :: behind) := by
  cases d with
  | left => rfl
  | right => rfl
  | stay => exact absurd rfl hd

end Tape

namespace Machine

/-- Exactly `k` steps lead from one machine to the other, each of them taken in a state that does not
halt. -/
inductive Runs : Machine → Nat → Machine → Prop
  | refl (m : Machine) : Runs m 0 m
  | next {m next last : Machine} {t : Transition} {k : Nat} (hm : m.isHalted = false)
      (hstep : m.step = (.applied t, next)) (hrest : Runs next k last) : Runs m (k + 1) last

/-- After exactly `k` steps the machine is as `last`, in the first state on its way that halts. -/
structure Halts (m : Machine) (k : Nat) (last : Machine) : Prop where
  runs : m.Runs k last
  halted : last.isHalted = true

variable {m next last : Machine} {k n : Nat}

theorem Runs.trans (h : m.Runs k next) (hrest : next.Runs n last) : m.Runs (k + n) last := by
  induction h with
  | refl => rwa [Nat.zero_add]
  | next hm hstep _ ih =>
    rw [Nat.succ_add_eq_add_succ]
    exact .next hm hstep (ih hrest)

theorem Runs.step {t : Transition} (hm : m.isHalted = false) (ht : m.next? = some t)
    (hnext : m.applyTransition t = next) : m.Runs 1 next := by
  subst hnext
  exact .next hm (step_of_some ht) (.refl _)

theorem Runs.batch (h : m.Runs k last) (hlast : last.isHalted = true) {b : Batch}
    (hb : b.machine = m) (hover : b.isOver = m.isHalted) (hn : k ≤ n) :
    (b.run n).machine = last := by
  -- By induction on the run: a batch takes its steps as long as it is not over.
  induction h generalizing b n with
  | refl =>
    rw [Batch.run_of_isOver (hover.trans hlast)]
    exact hb
  | @next m next last t k hm hstep _ ih =>
    obtain ⟨n, rfl⟩ := Nat.exists_eq_add_of_le' hn
    have hnext : b.attempt.machine = next := by rw [Batch.machine_attempt, hb, hstep]
    have hattempt : b.attempt.isOver = next.isHalted := by
      rw [Batch.attempt, hb, hstep]
      rfl
    rw [← Nat.add_assoc, Batch.run, if_neg (by rw [hover, hm]; exact Bool.false_ne_true)]
    exact ih hlast hnext hattempt (Nat.le_add_left _ _)

/-- A batch of at least so many steps ends where the machine halts. -/
theorem Halts.execute (h : m.Halts k last) (hn : k ≤ n) : (m.execute (.step n)).machine = last := by
  cases hm : m.isHalted with
  | true =>
    rw [execute_step_of_isHalted hm]
    cases h.runs with
    | refl => rfl
    | next hrunning => exact Bool.noConfusion (hm.symm.trans hrunning)
  | false =>
    rw [execute_step_of_running hm]
    exact h.runs.batch h.halted rfl hm.symm hn

end Machine

section

variable {p : Program} {q : Name} {d : Direction} {write : Char → Char}

/-- In the state `q` the content of a cell is replaced, the head goes on in the direction `d` and the
state stays. -/
def Program.Passes (p : Program) (q : Name) (d : Direction) (write : Char → Char) (c : Char) : Prop :=
  ∃ t, p.table.lookup q c = some t ∧ t.target = q ∧ t.direction = d ∧
    t.write.writtenOver c = write c

theorem Program.Passes.step {c : Char} (h : p.Passes q d write c) (hd : d ≠ .stay)
    (hq : q ∉ p.halts) (rest behind : List Char) (steps : Nat) :
    Machine.Runs ⟨p, .facing d (c :: rest) behind, q, steps⟩ 1
      ⟨p, .facing d rest (write c :: behind), q, steps + 1⟩ := by
  obtain ⟨t, hlookup, rfl, rfl, hwrite⟩ := h
  let m : Machine := ⟨p, .facing t.direction (c :: rest) behind, t.target, steps⟩
  have hm : m.isHalted = false := by simpa [m, Machine.isHalted] using hq
  have ht : m.next? = some t := by
    rw [Machine.next?, Machine.reading, Tape.cell_facing]
    exact hlookup
  have hnext : m.applyTransition t =
      ⟨p, .facing t.direction rest (write c :: behind), t.target, steps + 1⟩ := by
    rw [Machine.applyTransition, Tape.move_facing _ _ _ hd, List.headD_cons, hwrite]
    rfl
  exact .step hm ht hnext

theorem Machine.Runs.sweep {cells : List Char} (h : ∀ c ∈ cells, p.Passes q d write c)
    (hd : d ≠ .stay) (hq : q ∉ p.halts) (rest behind : List Char) (steps : Nat) :
    Machine.Runs ⟨p, .facing d (cells ++ rest) behind, q, steps⟩ cells.length
      ⟨p, .facing d rest ((cells.map write).reverse ++ behind), q, steps + cells.length⟩ := by
  -- By induction on the cells: the head goes along them, and they lie behind it in the end.
  induction cells generalizing behind steps with
  | nil => exact .refl _
  | cons c cells ih =>
    have hfirst := (h c List.mem_cons_self).step hd hq (cells ++ rest) behind steps
    have hrest := ih (fun b hb => h b (List.mem_cons_of_mem c hb)) (write c :: behind) (steps + 1)
    have hwhole := hfirst.trans hrest
    simpa [Nat.add_comm, Nat.add_left_comm] using hwhole

end

end TapeMachine
