import TapeMachine.Proofs.Table.Consistency
import TapeMachine.Reachability
/-!
# Exploring a table

An exploration looks at every name that it finds: the number of names it may take is never used up
(`explore_closed`). So what is reachable holds the initial state and the targets of the anonymous
state, and leads nowhere else.
-/
namespace TapeMachine

namespace Table

def pending (seen : List Name) : List State → Nat
  | [] => 0
  | s :: rest => (if seen.contains s.name then 0 else s.transitions.length) + pending seen rest

theorem pending_nil (table : Table) : pending [] table.states = table.transitions.length := by
  obtain ⟨states⟩ := table
  induction states with
  | nil => rfl
  | cons s states ih => simpa [pending, transitions] using ih

private theorem pending_cons_le (name : Name) (seen : List Name) (states : List State) :
    pending (name :: seen) states ≤ pending seen states := by
  induction states with
  | nil => exact Nat.le_refl 0
  | cons s states ih =>
    simp only [pending, List.contains_iff_mem, List.mem_cons]
    by_cases hseen : s.name ∈ seen
    · simpa [hseen] using ih
    · by_cases hname : s.name = name
      · simp only [hname, true_or, if_true]
        omega
      · simpa [hseen, hname] using ih

theorem length_targets_le (table : Table) {name : Name} {seen : List Name} (h : name ∉ seen) :
    (table.targets name).length + pending (name :: seen) table.states ≤
      pending seen table.states := by
  obtain ⟨states⟩ := table
  induction states with
  | nil => exact Nat.le_refl 0
  | cons s states ih =>
    have hmono := pending_cons_le name seen states
    simp only [targets, get?, pending, List.contains_iff_mem, List.mem_cons, List.find?_cons] at ih ⊢
    by_cases hname : s.name = name
    · simp only [hname, BEq.rfl, true_or, if_true, h, if_false, List.length_map]
      omega
    · have hne : (s.name == name) = false := beq_eq_false_iff_ne.mpr hname
      simp only [hne, hname, false_or]
      omega

theorem explore_cons (table : Table) (n : Nat) (name : Name) (queue seen : List Name) :
    table.explore (n + 1) (name :: queue) seen =
      if name ∈ seen then table.explore n queue seen
      else table.explore n (table.targets name ++ queue) (name :: seen) := rfl

theorem explore_closed (table : Table) (n : Nat) (queue seen : List Name)
    (h : queue.length + pending seen table.states ≤ n) :
    (∀ name ∈ seen, name ∈ table.explore n queue seen) ∧
      (∀ name ∈ queue, name ∈ table.explore n queue seen) ∧
      ∀ name ∈ table.explore n queue seen, name ∉ seen →
        ∀ target ∈ table.targets name, target ∈ table.explore n queue seen := by
  -- By induction on the names that may still be taken: while they suffice for the queue and for all
  -- targets of names not seen yet, whatever is found leads only to names that are found.
  induction n generalizing queue seen with
  | zero =>
    have hqueue : queue = [] := List.length_eq_zero_iff.mp (by omega)
    subst hqueue
    exact ⟨fun _ hname => hname, fun _ hname => absurd hname List.not_mem_nil,
      fun _ hname hnot => absurd hname hnot⟩
  | succ n ih =>
    cases queue with
    | nil =>
      exact ⟨fun _ hname => hname, fun _ hname => absurd hname List.not_mem_nil,
        fun _ hname hnot => absurd hname hnot⟩
    | cons first queue =>
      rw [List.length_cons] at h
      rw [explore_cons]
      by_cases hfirst : first ∈ seen
      -- A name seen before had its targets queued when it was first taken.
      · rw [if_pos hfirst]
        obtain ⟨hseen, hqueue, hclosed⟩ := ih queue seen (by omega)
        refine ⟨hseen, ?_, hclosed⟩
        intro name hname
        rcases List.mem_cons.mp hname with rfl | hname
        · exact hseen name hfirst
        · exact hqueue name hname
      · rw [if_neg hfirst]
        have hlength := table.length_targets_le hfirst
        obtain ⟨hseen, hqueue, hclosed⟩ :=
          ih (table.targets first ++ queue) (first :: seen) (by rw [List.length_append]; omega)
        refine ⟨fun name hname => hseen name (List.mem_cons_of_mem first hname), ?_, ?_⟩
        · intro name hname
          rcases List.mem_cons.mp hname with rfl | hname
          · exact hseen name List.mem_cons_self
          · exact hqueue name (List.mem_append_right _ hname)
        · intro name hname hnot target htarget
          by_cases hsame : name = first
          · subst hsame
            exact hqueue target (List.mem_append_left _ htarget)
          · exact hclosed name hname (List.not_mem_cons_of_ne_of_not_mem hsame hnot) target htarget

/-- Names that a run may enter from `initial`, those of the anonymous state's targets included. -/
structure Spans (table : Table) (initial : Name) (found : List Name) : Prop where
  initial : initial ∈ found
  anonymous : ∀ target ∈ table.targets Name.anonymous, target ∈ found
  closed : ∀ name ∈ found, ∀ target ∈ table.targets name, target ∈ found

theorem spans_reachable (table : Table) (initial : Name) :
    table.Spans initial (table.reachable initial) := by
  have hnone : Name.anonymous ∉ ([] : List Name) := List.not_mem_nil
  have hanonymous := table.length_targets_le hnone
  rw [pending_nil] at hanonymous
  obtain ⟨-, hqueue, hclosed⟩ := table.explore_closed (1 + 2 * table.transitions.length)
    (initial :: table.targets Name.anonymous) [] (by rw [pending_nil, List.length_cons]; omega)
  exact
    { initial := hqueue initial List.mem_cons_self
      anonymous := fun target htarget => hqueue target (List.mem_cons_of_mem initial htarget)
      closed := fun name hname => hclosed name hname List.not_mem_nil }

theorem mem_unreachable {table : Table} {initial name : Name} :
    name ∈ table.unreachable initial ↔
      name ≠ Name.anonymous ∧ name ∉ table.reachable initial ∧
        ∃ s ∈ table.states, s.name = name ∧ s.transitions ≠ [] := by
  rw [unreachable, List.mem_mergeSort, lost]
  simp only [List.mem_map, List.mem_filter, State.isAnonymous, Bool.and_eq_true,
    Bool.not_eq_true', List.isEmpty_eq_false_iff, beq_eq_false_iff_ne, List.contains_eq_mem,
    decide_eq_false_iff_not]
  constructor
  · rintro ⟨s, ⟨hs, ⟨howns, hnamed⟩, hlost⟩, rfl⟩
    exact ⟨hnamed, hlost, s, hs, rfl, howns⟩
  · rintro ⟨hnamed, hlost, s, hs, rfl, howns⟩
    exact ⟨s, ⟨hs, ⟨howns, hnamed⟩, hlost⟩, rfl⟩

end Table

end TapeMachine
