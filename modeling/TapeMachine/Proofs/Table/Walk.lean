import TapeMachine.Proofs.Table.Appending
import TapeMachine.Proofs.Table.Exploration
/-!
# Walks through a table

The states that a run may enter are a least set of names. A walk finds them in any table, also one
with targets that it does not know: the queue may hold a name again and again, but the transitions
left to look at and the names that wait become fewer, so the walk ends. It finds what an exploration
finds, and the states it leaves out are the ones reported (`reachabilityProblems_exact`).
-/
namespace TapeMachine

namespace Table

/-- The least set with the initial state, the targets of the anonymous state and, for each of its
states, the targets of that state. -/
inductive Reached (table : Table) (initial : Name) : Name → Prop
  | initial : Reached table initial initial
  | anonymous (s : State) (t : Transition) (hs : s ∈ table.states) (hname : s.name = Name.anonymous)
      (ht : t ∈ s.transitions) : Reached table initial t.target
  | target (s : State) (t : Transition) (hs : s ∈ table.states)
      (hname : Reached table initial s.name) (ht : t ∈ s.transitions) :
      Reached table initial t.target

variable {table : Table} {initial : Name}

theorem mem_targets_of_mem (hnames : table.names.Nodup) {s : State} {t : Transition}
    (hs : s ∈ table.states) (ht : t ∈ s.transitions) : t.target ∈ table.targets s.name := by
  rw [targets, get?_of_mem hnames hs]
  exact List.mem_map_of_mem ht

theorem exists_of_mem_targets {name target : Name} (h : target ∈ table.targets name) :
    ∃ s ∈ table.states, s.name = name ∧ ∃ t ∈ s.transitions, t.target = target := by
  rw [targets] at h
  cases hs : table.get? name with
  | none => simp [hs] at h
  | some s =>
    rw [hs] at h
    exact ⟨s, List.mem_of_find?_eq_some hs, name_of_get? hs, List.mem_map.mp h⟩

theorem Reached.of_mem_targets {name target : Name} (hname : table.Reached initial name)
    (h : target ∈ table.targets name) : table.Reached initial target := by
  obtain ⟨s, hs, rfl, t, ht, rfl⟩ := exists_of_mem_targets h
  exact .target s t hs hname ht

theorem Reached.of_mem_targets_anonymous {target : Name}
    (h : target ∈ table.targets Name.anonymous) : table.Reached initial target := by
  obtain ⟨s, hs, hname, t, ht, rfl⟩ := exists_of_mem_targets h
  exact .anonymous s t hs hname ht

theorem Reached.mem_of_spans {found : List Name} (hnames : table.names.Nodup)
    (h : table.Spans initial found) {name : Name} (hname : table.Reached initial name) :
    name ∈ found := by
  -- By induction on how a name is reached: no set that is closed in the same way is smaller.
  induction hname with
  | initial => exact h.initial
  | anonymous s t hs hname ht =>
    apply h.anonymous
    rw [← hname]
    exact mem_targets_of_mem hnames hs ht
  | target s t hs _ ht ih => exact h.closed s.name ih t.target (mem_targets_of_mem hnames hs ht)

theorem reached_of_mem_explore (n : Nat) (queue seen : List Name)
    (hqueue : ∀ name ∈ queue, table.Reached initial name)
    (hseen : ∀ name ∈ seen, table.Reached initial name) :
    ∀ name ∈ table.explore n queue seen, table.Reached initial name := by
  induction n generalizing queue seen with
  | zero => exact hseen
  | succ n ih =>
    cases queue with
    | nil => exact hseen
    | cons first queue =>
      have hfirst : table.Reached initial first := hqueue first List.mem_cons_self
      have hrest : ∀ name ∈ queue, table.Reached initial name :=
        fun name hname => hqueue name (List.mem_cons_of_mem first hname)
      rw [explore_cons]
      split
      · exact ih queue seen hrest hseen
      · apply ih
        · intro name hname
          rcases List.mem_append.mp hname with hname | hname
          · exact hfirst.of_mem_targets hname
          · exact hrest name hname
        · intro name hname
          rcases List.mem_cons.mp hname with rfl | hname
          · exact hfirst
          · exact hseen name hname

theorem mem_reachable_iff (hnames : table.names.Nodup) {name : Name} :
    name ∈ table.reachable initial ↔ table.Reached initial name := by
  constructor
  · apply reached_of_mem_explore
    · intro name hname
      rcases List.mem_cons.mp hname with rfl | hname
      · exact .initial
      · exact .of_mem_targets_anonymous hname
    · exact fun name hname => absurd hname List.not_mem_nil
  · exact Reached.mem_of_spans hnames (table.spans_reachable initial)

end Table

/-- A walk through a table: the names that wait to be looked at, the newest first, and those seen. -/
structure Walk where
  queue : List Name
  seen : List Name

namespace Walk

/-- An anonymous state counts as seen at once, and its targets wait above the initial state. -/
def start (table : Table) (initial : Name) : Walk :=
  if table.contains Name.anonymous then
    ⟨(table.targets Name.anonymous).reverse ++ [initial], [Name.anonymous]⟩
  else ⟨[initial], []⟩

/-- The targets of a name that were not seen, the last one first. -/
def unseen (table : Table) (name : Name) (seen : List Name) : List Name :=
  ((table.targets name).filter (!seen.contains ·)).reverse

/-- Looks at the newest name, whose targets wait if they were not seen; there is none at the end. -/
def next? (table : Table) (w : Walk) : Option Walk :=
  match w.queue with
  | [] => none
  | name :: queue =>
    if w.seen.contains name then some ⟨queue, w.seen⟩
    else
      let seen := name :: w.seen
      some ⟨unseen table name seen ++ queue, seen⟩

/-- The walk comes to an end, and these are the names seen by then. -/
inductive Ends (table : Table) : Walk → List Name → Prop
  | stop {w : Walk} (h : w.next? table = none) : Ends table w w.seen
  | step {w w' : Walk} {seen : List Name} (h : w.next? table = some w')
      (hrest : Ends table w' seen) : Ends table w seen

/-- What a walk may still have to do: the names that wait and the transitions not looked at. -/
def work (table : Table) (w : Walk) : Nat := w.queue.length + Table.pending w.seen table.states

def Covers (w : Walk) (name : Name) : Prop := name ∈ w.queue ∨ name ∈ w.seen

variable {table : Table} {initial : Name} {w w' : Walk}

theorem mem_unseen {name target : Name} {seen : List Name} :
    target ∈ unseen table name seen ↔ target ∈ table.targets name ∧ target ∉ seen := by
  simp [unseen]

theorem length_unseen_le (table : Table) (name : Name) (seen : List Name) :
    (unseen table name seen).length ≤ (table.targets name).length := by
  rw [unseen, List.length_reverse]
  exact List.length_filter_le _ _

theorem next?_eq_some (h : w.next? table = some w') :
    ∃ name queue, w.queue = name :: queue ∧
      (name ∈ w.seen ∧ w' = ⟨queue, w.seen⟩ ∨
        name ∉ w.seen ∧ w' = ⟨unseen table name (name :: w.seen) ++ queue, name :: w.seen⟩) := by
  obtain ⟨queue, seen⟩ := w
  cases queue with
  | nil => cases h
  | cons name queue =>
    refine ⟨name, queue, rfl, ?_⟩
    simp only [next?, List.contains_iff_mem] at h
    split at h
    next hname => exact .inl ⟨hname, (Option.some.inj h).symm⟩
    next hname => exact .inr ⟨hname, (Option.some.inj h).symm⟩

theorem queue_eq_nil (h : w.next? table = none) : w.queue = [] := by
  obtain ⟨queue, seen⟩ := w
  cases queue with
  | nil => rfl
  | cons name queue =>
    simp only [next?] at h
    split at h <;> cases h

theorem work_lt (h : w.next? table = some w') : w'.work table < w.work table := by
  obtain ⟨name, queue, hqueue, ⟨-, rfl⟩ | ⟨hname, rfl⟩⟩ := next?_eq_some h
  · simp [work, hqueue]
  · have hunseen := length_unseen_le table name (name :: w.seen)
    have htargets := table.length_targets_le hname
    simp only [work, hqueue, List.length_append, List.length_cons]
    omega

theorem exists_ends (table : Table) (w : Walk) : ∃ seen, w.Ends table seen := by
  -- By induction on what is left to do.
  induction hwork : w.work table using Nat.strongRecOn generalizing w with
  | ind n ih =>
    cases h : w.next? table with
    | none => exact ⟨w.seen, .stop h⟩
    | some w' =>
      obtain ⟨seen, hseen⟩ := ih (w'.work table) (by rw [← hwork]; exact work_lt h) w' rfl
      exact ⟨seen, .step h hseen⟩

theorem Covers.next {name : Name} (hname : w.Covers name) (h : w.next? table = some w') :
    w'.Covers name := by
  obtain ⟨first, queue, hqueue, ⟨hfirst, rfl⟩ | ⟨-, rfl⟩⟩ := next?_eq_some h
  · by_cases hsame : name = first
    · exact .inr (hsame ▸ hfirst)
    · simpa [Covers, hqueue, hsame] using hname
  · by_cases hsame : name = first
    · exact .inr (hsame ▸ List.mem_cons_self)
    · simp only [Covers, hqueue, List.mem_cons, hsame, false_or, List.mem_append] at hname ⊢
      exact hname.imp_left .inr

/-- What holds all along a walk: it takes up nothing that is not reached, and nothing that a name
leads to is lost. -/
structure OnTrack (table : Table) (initial : Name) (w : Walk) : Prop where
  queued : ∀ name ∈ w.queue, table.Reached initial name
  seen : ∀ name ∈ w.seen, name ≠ Name.anonymous → table.Reached initial name
  initial : w.Covers initial
  anonymous : Name.anonymous ∈ table.names → Name.anonymous ∈ w.seen
  targets : ∀ name ∈ w.seen, ∀ target ∈ table.targets name, w.Covers target

theorem onTrack_start (table : Table) (initial : Name) :
    (start table initial).OnTrack table initial := by
  unfold start
  split
  next =>
    constructor
    · intro name hname
      rcases List.mem_append.mp hname with hname | hname
      · exact .of_mem_targets_anonymous (List.mem_reverse.mp hname)
      · rw [List.mem_singleton.mp hname]
        exact .initial
    · intro name hname hnamed
      exact absurd (List.mem_singleton.mp hname) hnamed
    · exact .inl (List.mem_append_right _ List.mem_cons_self)
    · exact fun _ => List.mem_cons_self
    · intro name hname target htarget
      rw [List.mem_singleton.mp hname] at htarget
      exact .inl (List.mem_append_left _ (List.mem_reverse.mpr htarget))
  next hnone =>
    constructor
    · intro name hname
      rw [List.mem_singleton.mp hname]
      exact .initial
    · exact fun name hname => absurd hname List.not_mem_nil
    · exact .inl List.mem_cons_self
    · exact fun hname => absurd (Table.contains_iff.mpr hname) hnone
    · exact fun name hname => absurd hname List.not_mem_nil

theorem OnTrack.next (hw : w.OnTrack table initial) (h : w.next? table = some w') :
    w'.OnTrack table initial := by
  have hcovers : ∀ {name}, w.Covers name → w'.Covers name := fun hname => hname.next h
  obtain ⟨first, queue, hqueue, ⟨-, rfl⟩ | ⟨-, rfl⟩⟩ := next?_eq_some h
  · refine ⟨?_, hw.seen, hcovers hw.initial, hw.anonymous, ?_⟩
    · intro name hname
      apply hw.queued
      rw [hqueue]
      exact List.mem_cons_of_mem first hname
    · exact fun name hname target htarget => hcovers (hw.targets name hname target htarget)
  · have hfirst : table.Reached initial first := hw.queued first (by simp [hqueue])
    refine ⟨?_, ?_, hcovers hw.initial, ?_, ?_⟩
    · intro name hname
      rcases List.mem_append.mp hname with hname | hname
      · exact hfirst.of_mem_targets (mem_unseen.mp hname).1
      · exact hw.queued name (by simp [hqueue, hname])
    · intro name hname hnamed
      rcases List.mem_cons.mp hname with rfl | hname
      · exact hfirst
      · exact hw.seen name hname hnamed
    · exact fun hname => List.mem_cons_of_mem first (hw.anonymous hname)
    · intro name hname target htarget
      rcases List.mem_cons.mp hname with rfl | hname
      -- A target that does not wait was left out because it was seen.
      · by_cases hseen : target ∈ name :: w.seen
        · exact .inr hseen
        · exact .inl (List.mem_append_left _ (mem_unseen.mpr ⟨htarget, hseen⟩))
      · exact hcovers (hw.targets name hname target htarget)

/-- At the end nothing waits, so what was seen is all that is reached. -/
theorem OnTrack.mem_iff (hnames : table.names.Nodup) {seen : List Name}
    (hw : w.OnTrack table initial) (h : w.Ends table seen) :
    (Name.anonymous ∈ table.names → Name.anonymous ∈ seen) ∧
      ∀ name, name ≠ Name.anonymous → (name ∈ seen ↔ table.Reached initial name) := by
  induction h with
  | step h _ ih => exact ih (hw.next h)
  | @stop w h =>
    have hcovers : ∀ {name}, w.Covers name → name ∈ w.seen := by
      intro name hname
      simpa [Covers, queue_eq_nil h] using hname
    have hspans : table.Spans initial w.seen := by
      refine ⟨hcovers hw.initial, ?_, fun name hname target htarget =>
        hcovers (hw.targets name hname target htarget)⟩
      intro target htarget
      obtain ⟨s, hs, hname, -⟩ := Table.exists_of_mem_targets htarget
      have hknown : Name.anonymous ∈ table.names := hname ▸ List.mem_map_of_mem hs
      exact hcovers (hw.targets _ (hw.anonymous hknown) target htarget)
    refine ⟨hw.anonymous, ?_⟩
    intro name hnamed
    exact ⟨fun hname => hw.seen name hname hnamed, Table.Reached.mem_of_spans hnames hspans⟩

end Walk

namespace Table

theorem nodup_unreachable {table : Table} (hnames : table.names.Nodup) (initial : Name) :
    (table.unreachable initial).Nodup := by
  have hlost : (table.lost initial).Nodup := hnames.sublist (List.filter_sublist.map _)
  exact (List.mergeSort_perm _ _).nodup_iff.mpr hlost

theorem pairwise_unreachable (table : Table) (initial : Name) :
    (table.unreachable initial).Pairwise fun a b => Text.precedes a b = true := by
  apply List.pairwise_mergeSort
  · exact fun _ _ _ => Text.precedes_trans
  · intro a b
    simpa using Text.precedes_total a b

/--
In a table with one state for each name, from any of its states, a walk ends. It has seen the
reached names then, and the states that it left out are the ones that an exploration loses. What is
reported are the states with transitions, without the anonymous one, that are not reached, each once
and in alphabetical order. If there are none nothing is reported.
-/
theorem reachabilityProblems_exact (table : Table) (hnames : table.names.Nodup) (initial : Name)
    (hinitial : initial ∈ table.names) :
    ∃ seen listed,
      (Walk.start table initial).Ends table seen ∧
      (∀ name, name ≠ Name.anonymous → (name ∈ seen ↔ table.Reached initial name)) ∧
      table.lost initial =
        (table.states.filter fun s => !s.transitions.isEmpty && !seen.contains s.name).map (·.name) ∧
      table.reachabilityProblems (some initial) =
        (if listed = [] then [] else [.unreachable listed]) ∧
      listed.Nodup ∧ (listed.Pairwise fun a b => Text.precedes a b = true) ∧
      ∀ name, name ∈ listed ↔ name ≠ Name.anonymous ∧ ¬table.Reached initial name ∧
        ∃ s ∈ table.states, s.name = name ∧ s.transitions ≠ [] := by
  obtain ⟨seen, hends⟩ := Walk.exists_ends table (Walk.start table initial)
  obtain ⟨hanonymous, hseen⟩ := (Walk.onTrack_start table initial).mem_iff hnames hends
  refine ⟨seen, table.unreachable initial, hends, hseen, ?_, ?_, nodup_unreachable hnames initial,
    table.pairwise_unreachable initial, ?_⟩
  · rw [lost]
    congr 1
    apply List.filter_congr
    intro s hs
    by_cases hname : s.name = Name.anonymous
    · have hmarked : s.name ∈ seen := by
        rw [hname]
        exact hanonymous (hname ▸ List.mem_map_of_mem hs)
      simp [State.isAnonymous, hname ▸ hmarked, hname]
    · have hother : (s.name == Name.anonymous) = false := beq_eq_false_iff_ne.mpr hname
      have hfound : s.name ∈ table.reachable initial ↔ s.name ∈ seen := by
        rw [mem_reachable_iff hnames, hseen s.name hname]
      simp [State.isAnonymous, hother, hfound]
  · have hnone : table.unreachable initial = [] ↔ table.lost initial = [] := by
      rw [unreachable, ← List.length_eq_zero_iff, List.length_mergeSort, List.length_eq_zero_iff]
    simp [reachabilityProblems, contains_iff.mpr hinitial, hnone]
  · intro name
    rw [mem_unreachable, mem_reachable_iff hnames]

/-- Two pairs of states that lead to each other, a target that is not known, and an anonymous state. -/
def tangled : Table :=
  let rule (name : Name) (read : Char) (target : Name) : Transition :=
    ⟨name, .char read, target, .any, .stay⟩
  ⟨[⟨['q'], [rule ['q'] '1' ['p']]⟩, ⟨['p'], [rule ['p'] '1' ['q'], rule ['p'] '0' ['n']]⟩,
    ⟨['z'], [rule ['z'] '1' ['b']]⟩, ⟨['b'], [rule ['b'] '1' ['z']]⟩,
    ⟨Name.anonymous, [rule Name.anonymous '0' ['r']]⟩, ⟨['r'], [rule ['r'] '1' ['q']]⟩]⟩

/-- The second pair is reported in alphabetical order; neither of the two is reached. -/
theorem reachabilityProblems_exact_tangled :
    tangled.names.Nodup ∧ ['q'] ∈ tangled.names ∧ tangled.unresolved ≠ [] ∧
      tangled.reachabilityProblems (some ['q']) = [.unreachable [['b'], ['z']]] ∧
      ¬tangled.Reached ['q'] ['b'] ∧ ¬tangled.Reached ['q'] ['z'] := by
  have hnames : tangled.names.Nodup := by decide
  have hinitial : ['q'] ∈ tangled.names := by decide
  have hreport : tangled.reachabilityProblems (some ['q']) = [.unreachable [['b'], ['z']]] := by
    have hlost : tangled.lost ['q'] = [['z'], ['b']] := by decide
    have horder : Text.precedes ['z'] ['b'] = false := by decide
    simp [reachabilityProblems, unreachable, hlost, contains_iff.mpr hinitial, List.mergeSort,
      horder]
  obtain ⟨-, listed, -, -, -, hlisted, -, -, hmem⟩ :=
    reachabilityProblems_exact tangled hnames ['q'] hinitial
  have hpair : listed = [['b'], ['z']] := by
    rw [hreport] at hlisted
    split at hlisted
    · cases hlisted
    · simpa using hlisted.symm
  refine ⟨hnames, hinitial, by decide, hreport, ?_, ?_⟩
  · exact ((hmem ['b']).mp (by simp [hpair])).2.1
  · exact ((hmem ['z']).mp (by simp [hpair])).2.1

end Table

end TapeMachine
