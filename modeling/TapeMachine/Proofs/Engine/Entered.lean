import TapeMachine.Proofs.Engine.Endless
import TapeMachine.Proofs.Language.Reports
import TapeMachine.Proofs.Language.WellFormed
import TapeMachine.Proofs.Table.Exploration
/-!
# States that a run enters

A step follows a transition of the current state or of the anonymous one, so a run stays among the
states that an exploration of the table finds. The states reported as unreachable are never
entered, and their transitions never applied (`attempts_avoid_unreachable`).
-/
namespace TapeMachine

namespace Table

theorem owner_of_lookup {table : Table} {name : Name} {cell : Char} {t : Transition}
    (h : table.lookup name cell = some t) :
    ∃ s ∈ table.states, (s.name = name ∨ s.name = Name.anonymous) ∧ t ∈ s.transitions ∧
      t.target ∈ table.targets s.name := by
  have hown : ∀ x, table.own? x cell = some t →
      ∃ s ∈ table.states, s.name = x ∧ t ∈ s.transitions ∧ t.target ∈ table.targets s.name := by
    intro x hx
    obtain ⟨s, hs, ht⟩ := Option.bind_eq_some_iff.mp hx
    have hname := name_of_get? hs
    have hmem := List.mem_of_find?_eq_some ht
    refine ⟨s, List.mem_of_find?_eq_some hs, hname, hmem, ?_⟩
    rw [hname, targets, hs]
    exact List.mem_map_of_mem hmem
  rw [lookup, Option.or_eq_some_iff] at h
  rcases h with h | ⟨-, h⟩
  · obtain ⟨s, hs, hname, ht⟩ := hown name h
    exact ⟨s, hs, .inl hname, ht⟩
  · obtain ⟨s, hs, hname, ht⟩ := hown Name.anonymous h
    exact ⟨s, hs, .inr hname, ht⟩

theorem unreachable_of_mem_problems {table : Table} {initial : Name} {listed : List Name}
    (h : .unreachable listed ∈ table.problems (some initial)) :
    listed = table.unreachable initial := by
  rw [problems, List.mem_append, List.mem_append] at h
  rcases h with (h | h) | h
  · rw [initialProblems] at h
    split at h
    · cases h
    · cases List.mem_singleton.mp h
  · obtain ⟨t, -, ht⟩ := List.mem_map.mp h
    cases ht
  · rw [reachabilityProblems] at h
    split at h
    · cases List.mem_singleton.mp h
      rfl
    · cases h

end Table

namespace Scan

theorem initial_of_program? {μ : Type} {s : Scan μ} {p : Program} (h : s.program? = some p) :
    s.draft.initial.map (·.1) = some p.initial := by
  rw [program?] at h
  split at h
  · obtain ⟨named, hnamed, rfl⟩ := Option.map_eq_some_iff.mp h
    rw [hnamed]
    rfl
  · cases h

end Scan

namespace Machine

/-- The machine runs the program and is in a state that the exploration of its table finds. -/
structure Within (p : Program) (m : Machine) : Prop where
  program : m.program = p
  known : m.state ∈ p.table.names
  reachable : m.state ∈ p.table.reachable p.initial

/-- A transition that a run may apply: its state is not listed. -/
def Useful (p : Program) (t : Transition) : Prop :=
  ∀ s ∈ p.table.states, s.name ∈ p.table.unreachable p.initial → t ∉ s.transitions

theorem Within.not_unreachable {p : Program} {m : Machine} (h : m.Within p) :
    m.state ∉ p.table.unreachable p.initial :=
  fun hlisted => (Table.mem_unreachable.mp hlisted).2.1 h.reachable

theorem Within.step {p : Program} (hp : p.table.Consistent) {m : Machine} (h : m.Within p) :
    m.step.2.Within p ∧ ∀ t, m.step.1 = .applied t → Useful p t := by
  cases hnext : m.next? with
  | none =>
    rw [step_of_none hnext]
    exact ⟨h, fun t ht => nomatch ht⟩
  | some t =>
    rw [step_of_some hnext]
    have hspans := p.table.spans_reachable p.initial
    have hlookup : p.table.lookup m.state m.reading = some t := by
      rw [← h.program]
      exact hnext
    obtain ⟨s, hs, hname, ht, htarget⟩ := Table.owner_of_lookup hlookup
    constructor
    · refine ⟨h.program, hp.targets_known s hs t ht, ?_⟩
      rcases hname with hname | hname
      · rw [hname] at htarget
        exact hspans.closed m.state h.reachable t.target htarget
      · rw [hname] at htarget
        exact hspans.anonymous t.target htarget
    · rintro u hu v hv hlisted hmem
      cases hu
      -- Both own `t`, which names its state: they are called the same.
      have hsame : v.name = s.name := by rw [← hp.owned v hv t hmem, hp.owned s hs t ht]
      rw [hsame] at hlisted
      obtain ⟨hnamed, hlost, -⟩ := Table.mem_unreachable.mp hlisted
      rcases hname with hname | hname
      · exact hlost (hname ▸ h.reachable)
      · exact hnamed hname

theorem Within.attempts {p : Program} (hp : p.table.Consistent) (k : Nat) {m : Machine}
    (h : m.Within p) :
    (TapeMachine.attempts Machine.step k m).2.Within p ∧
      ∀ t, .applied t ∈ (TapeMachine.attempts Machine.step k m).1 → Useful p t := by
  -- By induction on the number of attempts.
  induction k generalizing m with
  | zero => exact ⟨h, fun t ht => absurd ht List.not_mem_nil⟩
  | succ k ih =>
    obtain ⟨hnext, hfirst⟩ := h.step hp
    obtain ⟨hlast, hothers⟩ := ih hnext
    rw [attempts_succ]
    refine ⟨hlast, ?_⟩
    intro t ht
    rcases List.mem_cons.mp ht with ht | ht
    · exact hfirst t ht.symm
    · exact hothers t ht

end Machine

theorem wellFormed_and_reported {source : List Char} {p : Program}
    (hp : (compile source).program = some p) :
    p.WellFormed ∧ ∀ d ∈ (compile source).diagnostics, ∀ listed,
      d.cause = .problem (.unreachable listed) → listed = p.table.unreachable p.initial := by
  have hsound : (scanSource source).draft.Sound := by
    rw [scanSource_eq, Scan.draft_close]
    exact (sound_readSource source).draft
  refine ⟨Scan.program_wellFormed hsound hp, ?_⟩
  intro d hd listed hcause
  rcases List.mem_append.mp hd with hd | hd
  · exact absurd hcause (local_of_mem_scanSource hd _)
  · obtain ⟨problem, hproblem, rfl⟩ := List.mem_map.mp hd
    obtain rfl : problem = .unreachable listed := Cause.problem.inj hcause
    have hinitial : (scanSource source).draft.initial.map (·.1) = some p.initial :=
      Scan.initial_of_program? hp
    rw [hinitial, ← (Scan.program?_eq_some hp).1] at hproblem
    exact Table.unreachable_of_mem_problems hproblem

/--
Attempts from the initial state of a program, on any tape, only ever lead to known states, and never
to one that was reported as unreachable. No transition of such a state is applied.
-/
theorem attempts_avoid_unreachable (source : List Char) (p : Program)
    (hp : (compile source).program = some p) (tape : Tape) (k : Nat) :
    let run := attempts Machine.step k { Machine.ofProgram p with tape }
    run.2.state ∈ p.table.names ∧
      ∀ d ∈ (compile source).diagnostics, ∀ listed, d.cause = .problem (.unreachable listed) →
        run.2.state ∉ listed ∧
          ∀ t, .applied t ∈ run.1 → ∀ s ∈ p.table.states, s.name ∈ listed → t ∉ s.transitions := by
  intro run
  obtain ⟨hwell, hreported⟩ := wellFormed_and_reported hp
  have hbegin : Machine.Within p { Machine.ofProgram p with tape } :=
    ⟨rfl, hwell.initial_known, (p.table.spans_reachable p.initial).initial⟩
  obtain ⟨hrun, happlied⟩ := hbegin.attempts hwell.table.toConsistent k
  refine ⟨hrun.known, ?_⟩
  intro d hd listed hcause
  rw [hreported d hd listed hcause]
  exact ⟨hrun.not_unreachable, fun t ht s hs hlisted => happlied t ht s hs hlisted⟩

/-- A state that has a transition but that no run enters is reported, and not entered. -/
theorem attempts_avoid_unreachable_orphan :
    let source := ['@', '1', ';', '$', 'q', ':', '1', '>', 'q', ':', '_', ':', 'R', ';', '$', 'z',
      ':', '1', '>', 'q', ':', '1', ':', 'R', ';', '!', 'q', ';']
    ∃ p, (compile source).program = some p ∧
      (∃ d ∈ (compile source).diagnostics, d.cause = .problem (.unreachable [['z']])) ∧
      (attempts Machine.step 3
        { Machine.ofProgram p with tape := Tape.ofList ['1', '1'] }).2.state ∉ [['z']] := by
  intro source
  have hsome : (compile source).program.isSome = true := by decide
  obtain ⟨p, hp⟩ := Option.isSome_iff_exists.mp hsome
  have hwarned : ∃ d ∈ (compile source).diagnostics, d.cause = .problem (.unreachable [['z']]) := by
    decide +kernel
  refine ⟨p, hp, hwarned, ?_⟩
  obtain ⟨d, hd, hcause⟩ := hwarned
  obtain ⟨-, havoid⟩ := attempts_avoid_unreachable source p hp (Tape.ofList ['1', '1']) 3
  exact (havoid d hd _ hcause).1

end TapeMachine
