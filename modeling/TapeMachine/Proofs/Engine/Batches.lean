import TapeMachine.Proofs.Engine.Replay
/-!
# Batches of steps

A batch keeps count of its attempts in several places. They agree because no attempt of a batch is
made in a state that halts, or after one that found no transition (`Batch.Tallied`). For the same
reason a batch may be divided: what ended its first part ends the second one at once, and then
changes nothing (`Machine.execute_step_add`).
-/
namespace TapeMachine

def Attempt.isRefused (a : Attempt) : Bool := !a.isApplied

theorem attempts_concat {σ : Type} (step : σ → Attempt × σ) (k : Nat) (s : σ) :
    (attempts step (k + 1) s).2 = (step (attempts step k s).2).2 := by
  induction k generalizing s with
  | zero => rfl
  | succ k ih => rw [attempts_succ, ih, attempts_succ]

namespace Machine

theorem steps_step (m : Machine) :
    m.step.2.steps = m.steps + if m.step.1.isApplied then 1 else 0 := by
  cases hnext : m.next? with
  | none => simp [step_of_none hnext, Attempt.isApplied]
  | some t => simp [step_of_some hnext, Attempt.isApplied, applyTransition]

theorem step_of_isRefused {m : Machine} (h : m.step.1.isRefused = true) :
    m.step.2 = m ∧ m.next? = none := by
  cases hnext : m.next? with
  | none => rw [step_of_none hnext]; exact ⟨rfl, rfl⟩
  | some t => simp [step_of_some hnext, Attempt.isRefused, Attempt.isApplied] at h

end Machine

namespace Batch

@[simp] theorem machine_attempt (b : Batch) : b.attempt.machine = b.machine.step.2 := rfl

@[simp] theorem last?_attempt (b : Batch) : b.attempt.last? = some b.machine.step.1 := rfl

@[simp] theorem length_attempt (b : Batch) : b.attempt.trail.length = b.trail.length + 1 := rfl

@[simp] theorem performed_attempt (b : Batch) :
    b.attempt.performed = b.performed + if b.machine.step.1.isApplied then 1 else 0 :=
  List.countP_cons

theorem isOver_iff {b : Batch} : b.isOver = true ↔
    b.last?.any Attempt.isRefused = true ∨ b.trail ≠ [] ∧ b.machine.isHalted = true := by
  obtain ⟨start, trail⟩ := b
  cases trail with
  | nil => simp [isOver, last?]
  | cons first rest => simp [isOver, last?, machine, Attempt.isRefused]

theorem length_views (b : Batch) : b.views.length = b.trail.length := by
  simp [views]

theorem last?_eq_bind (b : Batch) : b.last? = b.views.getLast?.bind View.last := by
  obtain ⟨start, trail⟩ := b
  cases trail with
  | nil => rfl
  | cons first rest => simp [last?, views, Machine.view]

theorem last?_eq_none_iff {b : Batch} : b.last? = none ↔ b.trail.length = 0 := by
  simp [last?]

/-- How the counts of a batch that began with a machine hang together: the batch has made the first
attempts in a row, none of them in a state that halts, and at most the last one was refused. -/
structure Tallied (m : Machine) (b : Batch) : Prop where
  start : b.start = m
  reached : b.machine = (attempts Machine.step b.trail.length m).2
  running : ∀ i < b.trail.length, (attempts Machine.step i m).2.isHalted = false
  steps : b.machine.steps = m.steps + b.performed
  length : b.trail.length = b.performed + if b.last?.any Attempt.isRefused then 1 else 0
  refused : b.last?.any Attempt.isRefused = true →
    b.machine.isHalted = false ∧ b.machine.next? = none

variable {m : Machine} {b : Batch}

theorem tallied_nil (m : Machine) : (⟨m, []⟩ : Batch).Tallied m where
  start := rfl
  reached := rfl
  running := fun i hi => absurd hi (Nat.not_lt_zero i)
  steps := rfl
  length := rfl
  refused := nofun

theorem Tallied.attempt (h : b.Tallied m) (hm : m.isHalted = false) (hover : b.isOver = false) :
    b.attempt.Tallied m := by
  have hrunning : b.machine.isHalted = false :=
    isHalted_of_not_isOver (by rw [h.start]; exact hm) hover
  have hlength : b.trail.length = b.performed := by
    have hlast : ¬b.last?.any Attempt.isRefused = true := by
      intro hrefused
      rw [isOver_iff.mpr (.inl hrefused)] at hover
      cases hover
    simpa [hlast] using h.length
  refine ⟨h.start, ?_, ?_, ?_, ?_, ?_⟩
  · rw [length_attempt, attempts_concat, ← h.reached, machine_attempt]
  · intro i hi
    rw [length_attempt, Nat.lt_succ_iff_lt_or_eq] at hi
    rcases hi with hi | rfl
    · exact h.running i hi
    · rw [← h.reached]
      exact hrunning
  · rw [machine_attempt, performed_attempt, Machine.steps_step, h.steps, Nat.add_assoc]
  · rw [length_attempt, performed_attempt, last?_attempt, hlength]
    cases happlied : b.machine.step.1.isApplied <;> simp [Attempt.isRefused, happlied]
  · intro hrefused
    rw [machine_attempt]
    obtain ⟨hsame, hnext⟩ := Machine.step_of_isRefused hrefused
    rw [hsame]
    exact ⟨hrunning, hnext⟩

theorem Tallied.run (h : b.Tallied m) (hm : m.isHalted = false) (n : Nat) :
    (b.run n).Tallied m ∧ (b.run n).trail.length ≤ b.trail.length + n ∧
      ((b.run n).isOver = false → (b.run n).trail.length = b.trail.length + n) := by
  -- By induction on the attempts that may still be made: either all of them are, or it is over.
  induction n generalizing b with
  | zero => exact ⟨h, Nat.le_refl _, fun _ => rfl⟩
  | succ n ih =>
    rw [Batch.run]
    cases hover : b.isOver with
    | true =>
      refine ⟨h, Nat.le_add_right _ _, ?_⟩
      intro hnot
      rw [if_pos rfl, hover] at hnot
      cases hnot
    | false =>
      obtain ⟨htallied, hle, hall⟩ := ih (h.attempt hm hover)
      rw [length_attempt] at hle hall
      refine ⟨htallied, by rw [if_neg Bool.false_ne_true]; omega, ?_⟩
      intro hnot
      rw [if_neg Bool.false_ne_true] at hnot ⊢
      rw [hall hnot]
      omega

/-- A whole batch: it makes at most as many attempts as are asked for, and fewer only if it is over. -/
theorem tallied_run (hm : m.isHalted = false) (n : Nat) :
    (run n ⟨m, []⟩).Tallied m ∧ (run n ⟨m, []⟩).trail.length ≤ n ∧
      ((run n ⟨m, []⟩).isOver = false → (run n ⟨m, []⟩).trail.length = n) := by
  simpa using (tallied_nil m).run hm n

theorem Tallied.performed_le (h : b.Tallied m) : b.performed ≤ b.trail.length := by
  rw [h.length]
  exact Nat.le_add_right _ _

theorem Tallied.not_halted_and_refused (h : b.Tallied m) :
    ¬(b.machine.isHalted = true ∧ b.last?.any Attempt.isRefused = true) := by
  intro hboth
  rw [(h.refused hboth.2).1] at hboth
  exact Bool.false_ne_true hboth.1

theorem last?_eq_none_iff_of_length {n : Nat} (hle : b.trail.length ≤ n)
    (hall : b.isOver = false → b.trail.length = n) : b.last? = none ↔ n = 0 := by
  rw [last?_eq_none_iff]
  constructor
  · intro hnone
    have hover : b.isOver = false := by
      rw [Bool.eq_false_iff, ne_eq, isOver_iff]
      simp [last?_eq_none_iff.mpr hnone, List.length_eq_zero_iff.mp hnone]
    rw [← hall hover, hnone]
  · intro hn
    omega

theorem Tallied.performed_lt_iff (h : b.Tallied m) {n : Nat} (hle : b.trail.length ≤ n)
    (hall : b.isOver = false → b.trail.length = n) :
    b.performed < n ↔ b.last?.any Attempt.isRefused = true ∨
      ∃ i < n, (attempts Machine.step i m).2.isHalted = true := by
  have hlength := h.length
  have hperformed := h.performed_le
  constructor
  · intro hfewer
    by_cases hmissing : b.last?.any Attempt.isRefused = true
    · exact .inl hmissing
    · rw [if_neg hmissing] at hlength
      have hover : b.isOver = true := by
        rw [← Bool.not_eq_false]
        intro hnot
        have hn := hall hnot
        omega
      rcases isOver_iff.mp hover with hrefused | ⟨-, hhalted⟩
      · exact absurd hrefused hmissing
      · refine .inr ⟨b.trail.length, by omega, ?_⟩
        rw [← h.reached]
        exact hhalted
  · intro hended
    rcases hended with hmissing | ⟨i, hi, hhalted⟩
    · rw [if_pos hmissing] at hlength
      omega
    · have hpast : ¬i < b.trail.length := by
        intro hbefore
        rw [h.running i hbefore] at hhalted
        cases hhalted
      omega

/-- A batch with the attempts of an older one behind its own. -/
def onto (b old : Batch) : Batch := ⟨old.start, b.trail ++ old.trail⟩

theorem machine_onto {old : Batch} (hstart : b.start = old.machine) :
    (b.onto old).machine = b.machine := by
  obtain ⟨start, trail⟩ := b
  cases trail with
  | nil => exact hstart.symm
  | cons first rest => rfl

theorem isOver_onto {old : Batch} (hold : old.isOver = false) : (b.onto old).isOver = b.isOver := by
  obtain ⟨start, trail⟩ := b
  cases trail with
  | nil => exact hold
  | cons first rest => rfl

theorem run_onto {old : Batch} (hold : old.isOver = false) (hstart : b.start = old.machine)
    (n : Nat) : (b.onto old).run n = (b.run n).onto old := by
  -- By induction on the attempts that may still be made: the older ones make no difference to them.
  induction n generalizing b with
  | zero => rfl
  | succ n ih =>
    have hattempt : (b.onto old).attempt = b.attempt.onto old := by
      rw [Batch.attempt, machine_onto hstart]
      rfl
    rw [Batch.run, Batch.run, isOver_onto hold]
    split
    · rfl
    · rw [hattempt]
      exact ih hstart

theorem views_onto (b old : Batch) : (b.onto old).views = old.views ++ b.views := by
  simp [views, onto]

end Batch

namespace Machine

theorem execute_step_of_isHalted {m : Machine} (hm : m.isHalted = true) (n : Nat) :
    m.execute (.step n) = ⟨m, .halted m.steps, [m.view none]⟩ := by
  rw [execute, advance, if_pos hm, respond]

theorem execute_step_of_running {m : Machine} (hm : m.isHalted = false) (n : Nat) :
    m.execute (.step n) =
      let b := Batch.run n ⟨m, []⟩
      ⟨b.machine, b.outcome n, b.views⟩ := by
  rw [execute, advance, if_neg (Bool.eq_false_iff.mp hm)]

theorem execute_step_of_stuck {m : Machine} (h : m.isHalted = true ∨ m.next? = none) (n : Nat) :
    (m.execute (.step n)).machine = m ∧
      (m.execute (.step n)).views.filter View.isApplied = [] := by
  by_cases hm : m.isHalted = true
  · rw [execute_step_of_isHalted hm]
    exact ⟨rfl, rfl⟩
  · have hnext : m.next? = none := h.resolve_left hm
    rw [execute_step_of_running (Bool.eq_false_iff.mpr hm)]
    cases n with
    | zero => exact ⟨rfl, rfl⟩
    | succ n =>
      have hfirst : (⟨m, []⟩ : Batch).attempt = ⟨m, [(.refused m.state m.reading, m)]⟩ := by
        rw [Batch.attempt, Batch.machine, step_of_none hnext]
      have hover : (⟨m, [(.refused m.state m.reading, m)]⟩ : Batch).isOver = true := rfl
      rw [Batch.run, Batch.isOver, if_neg Bool.false_ne_true, hfirst, Batch.run_of_isOver hover]
      exact ⟨rfl, rfl⟩

/--
Any number of steps may be asked for in two commands instead of one. The machine at the end is the
same, and so are the views of applied transitions, wherever the first command ends: after all its
steps, at a missing transition, or in a state that halts.
-/
theorem execute_step_add (m : Machine) (n k : Nat) :
    let first := m.execute (.step n)
    let second := first.machine.execute (.step k)
    let whole := m.execute (.step (n + k))
    second.machine = whole.machine ∧
      (first.views ++ second.views).filter View.isApplied = whole.views.filter View.isApplied := by
  intro first second whole
  by_cases hm : m.isHalted = true
  · have hall : ∀ j, m.execute (.step j) = ⟨m, .halted m.steps, [m.view none]⟩ :=
      execute_step_of_isHalted hm
    simp [first, second, whole, hall, View.isApplied, view]
  · rw [Bool.not_eq_true] at hm
    let b := Batch.run n ⟨m, []⟩
    have hfirst : first = ⟨b.machine, b.outcome n, b.views⟩ := execute_step_of_running hm n
    have hwhole : whole = ⟨(b.run k).machine, (b.run k).outcome (n + k), (b.run k).views⟩ := by
      rw [show whole = _ from execute_step_of_running hm (n + k), Batch.run_add]
    have hsecond : second = b.machine.execute (.step k) := by
      change first.machine.execute (.step k) = _
      rw [hfirst]
    obtain ⟨htallied, -, -⟩ : b.Tallied m ∧ _ ∧ _ := Batch.tallied_run hm n
    rw [hfirst, hwhole, hsecond, List.filter_append]
    cases hover : b.isOver with
    -- What ended the first part is still there for the second one.
    | true =>
      have hstuck : b.machine.isHalted = true ∨ b.machine.next? = none := by
        rcases Batch.isOver_iff.mp hover with hrefused | ⟨-, hhalted⟩
        · exact .inr (htallied.refused hrefused).2
        · exact .inl hhalted
      obtain ⟨hmachine, hviews⟩ := execute_step_of_stuck hstuck k
      rw [Batch.run_of_isOver hover, hmachine, hviews, List.append_nil]
      exact ⟨rfl, rfl⟩
    | false =>
      have hrunning : b.machine.isHalted = false :=
        Batch.isHalted_of_not_isOver (by rw [htallied.start]; exact hm) hover
      let c := Batch.run k ⟨b.machine, []⟩
      have hjoined : b.run k = c.onto b := Batch.run_onto (b := ⟨b.machine, []⟩) hover rfl k
      have hstart : c.start = b.machine := (Batch.tallied_run hrunning k).1.start
      rw [execute_step_of_running hrunning, hjoined, Batch.machine_onto hstart, Batch.views_onto,
        List.filter_append]
      exact ⟨rfl, rfl⟩

/--
What a request for `n` steps reports. In a state that halts the machine stays as it is, is shown
once, and the report gives the steps taken. Otherwise the report gives how many of the steps were
performed, and the machine has taken so many more. Each is shown, and so is an attempt that found no
transition. The last attempt reported is the one shown last. Fewer than `n` are performed if and
only if there was such an attempt or the machine came to a state that halts in fewer than `n`
attempts; there is never both.
-/
theorem execute_step_reports (m : Machine) (n : Nat) :
    let r := m.execute (.step n)
    (m.isHalted = true → r = ⟨m, .halted m.steps, [m.view none]⟩) ∧
    (m.isHalted = false → ∃ performed last,
      let missing := last.any Attempt.isRefused
      r.outcome = .stepped n performed last r.machine.isHalted ∧ performed ≤ n ∧
      r.machine.steps = m.steps + performed ∧
      r.views.length = performed + (if missing then 1 else 0) ∧
      last = r.views.getLast?.bind View.last ∧ (last = none ↔ n = 0) ∧
      (performed < n ↔ missing = true ∨ ∃ i < n, (attempts step i m).2.isHalted = true) ∧
      ¬(r.machine.isHalted = true ∧ missing = true)) := by
  intro r
  refine ⟨fun hm => execute_step_of_isHalted hm n, ?_⟩
  intro hm
  let b := Batch.run n ⟨m, []⟩
  have hr : r = ⟨b.machine, b.outcome n, b.views⟩ := execute_step_of_running hm n
  obtain ⟨htallied, hle, hall⟩ : b.Tallied m ∧ b.trail.length ≤ n ∧
      (b.isOver = false → b.trail.length = n) := Batch.tallied_run hm n
  rw [hr]
  exact ⟨b.performed, b.last?, rfl, htallied.performed_le.trans hle, htallied.steps,
    b.length_views.trans htallied.length, b.last?_eq_bind,
    Batch.last?_eq_none_iff_of_length hle hall, htallied.performed_lt_iff hle hall,
    htallied.not_halted_and_refused⟩

/-- Two of five steps are performed on a tape of two ones, and the third attempt is shown as well; in
the state that halts nothing happens. -/
theorem execute_step_reports_erasing :
    let m : Machine := { Machine.ofProgram erasing with tape := Tape.ofList ['1', '1'] }
    let r := m.execute (.step 5)
    m.isHalted = false ∧ r.outcome = .stepped 5 2 (some (.refused ['q'] Glyph.blank)) false ∧
      r.machine.steps = 2 ∧ r.views.length = 3 ∧
      (m.setState Name.halt).isHalted = true ∧
      (m.setState Name.halt).execute (.step 5) =
        ⟨m.setState Name.halt, .halted 0, [(m.setState Name.halt).view none]⟩ := by
  intro m r
  have hm : m.isHalted = false := by decide
  have hhalt : (m.setState Name.halt).isHalted = true := by decide
  have hr : r.outcome = .stepped 5 2 (some (.refused ['q'] Glyph.blank)) false := by decide
  obtain ⟨performed, last, houtcome, -, hsteps, hviews, -⟩ := (execute_step_reports m 5).2 hm
  have hsame := houtcome.symm.trans hr
  injection hsame with _ hperformed hlast _
  subst hperformed hlast
  exact ⟨hm, hr, hsteps, hviews, hhalt, (execute_step_reports (m.setState Name.halt) 5).1 hhalt⟩

end Machine

end TapeMachine
