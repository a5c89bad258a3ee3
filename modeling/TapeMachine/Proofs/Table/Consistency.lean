import TapeMachine.Roster
import TapeMachine.Table
/-!
# Consistent tables

In a consistent table every state has a name of its own, its transitions leave it and lead to known
states, and no two of them read the same symbol. Making a name known and appending a transition
keep a table consistent.
-/
namespace TapeMachine

namespace State

theorem mem_place {t u : Transition} {ts : List Transition} (h : u ∈ place t ts) :
    u = t ∨ u ∈ ts := by
  induction ts with
  | nil => exact .inl (List.mem_singleton.mp h)
  | cons first rest ih =>
    rw [place] at h
    split at h
    · rcases List.mem_cons.mp h with h | h
      · exact .inl h
      · exact .inr (List.mem_cons_of_mem first h)
    · rcases List.mem_cons.mp h with h | h
      · exact .inr (by rw [h]; exact List.mem_cons_self)
      · rcases ih h with h | h
        · exact .inl h
        · exact .inr (List.mem_cons_of_mem first h)

theorem mem_place_self (t : Transition) (ts : List Transition) : t ∈ place t ts := by
  induction ts with
  | nil => exact List.mem_cons_self
  | cons first rest ih =>
    rw [place]
    split
    · exact List.mem_cons_self
    · exact List.mem_cons_of_mem first ih

theorem reads_place {t : Transition} {ts : List Transition}
    (h : ∀ u ∈ ts, u.state = t.state) :
    (place t ts).map (·.read) = Roster.enter (ts.map (·.read)) t.read := by
  induction ts with
  | nil => rfl
  | cons first rest ih =>
    have hfirst : first.state = t.state := h first List.mem_cons_self
    have hrest := ih fun u hu => h u (List.mem_cons_of_mem first hu)
    rw [place]
    by_cases hread : first.read = t.read
    · rw [if_pos (Transition.sameRule_iff.mpr ⟨hfirst, hread⟩)]
      have hmem : t.read ∈ (first :: rest).map (·.read) := by
        rw [← hread]
        exact List.mem_cons_self
      rw [Roster.enter, if_pos hmem, List.map_cons, List.map_cons, hread]
    · have hrule : ¬first.sameRule t = true := fun hs => hread (Transition.sameRule_iff.mp hs).2
      rw [if_neg hrule, List.map_cons, hrest, List.map_cons]
      exact (Roster.enter_cons_of_ne _ fun heq => hread heq.symm).symm

end State

namespace Table

def insertAll (names : List Name) (table : Table) : Table :=
  names.foldl (fun table name => table.insert name) table

structure Consistent (table : Table) : Prop where
  names_nodup : table.names.Nodup
  owned : ∀ s ∈ table.states, ∀ t ∈ s.transitions, t.state = s.name
  reads_nodup : ∀ s ∈ table.states, (s.transitions.map (·.read)).Nodup
  targets_known : ∀ s ∈ table.states, ∀ t ∈ s.transitions, t.target ∈ table.names

theorem names_insert (name : Name) (table : Table) :
    (table.insert name).names = Roster.enter table.names name := by
  unfold insert Roster.enter
  by_cases hname : name ∈ table.names
  · rw [if_pos (contains_iff.mpr hname), if_pos hname]
  · rw [if_neg (fun hc => hname (contains_iff.mp hc)), if_neg hname]
    simp only [names, List.map_append, List.map_cons, List.map_nil]

theorem mem_states_insert {name : Name} {table : Table} {s : State}
    (h : s ∈ (table.insert name).states) : s ∈ table.states ∨ s = ⟨name, []⟩ := by
  unfold insert at h
  split at h
  · exact .inl h
  · rcases List.mem_append.mp h with h | h
    · exact .inl h
    · exact .inr (List.mem_singleton.mp h)

theorem mem_states_register {t : Transition} {table : Table} {s : State}
    (h : s ∈ (table.register t).states) :
    ∃ u ∈ table.states, (u.name = t.state ∧ s = u.register t) ∨ (u.name ≠ t.state ∧ s = u) := by
  obtain ⟨u, hu, hs⟩ := List.mem_map.mp h
  refine ⟨u, hu, ?_⟩
  by_cases hname : u.name = t.state
  · rw [if_pos hname] at hs
    exact .inl ⟨hname, hs.symm⟩
  · rw [if_neg hname] at hs
    exact .inr ⟨hname, hs.symm⟩

theorem transitions_insert (name : Name) (table : Table) :
    (table.insert name).transitions = table.transitions := by
  unfold insert
  split
  · rfl
  · simp only [transitions, List.flatMap_append, List.flatMap_cons, List.flatMap_nil,
      List.append_nil]

theorem transitions_insertAll (names : List Name) (table : Table) :
    (table.insertAll names).transitions = table.transitions := by
  induction names generalizing table with
  | nil => rfl
  | cons name names ih =>
    rw [insertAll, List.foldl_cons, ← insertAll, ih, transitions_insert]

theorem mem_transitions_append {t u : Transition} {table : Table}
    (h : u ∈ (table.append t).transitions) : u = t ∨ u ∈ table.transitions := by
  obtain ⟨s, hs, hu⟩ := List.mem_flatMap.mp h
  have hold : ∀ {s : State}, s ∈ ((table.insert t.state).insert t.target).states →
      u ∈ s.transitions → u ∈ table.transitions := by
    intro s hs hu
    rw [← transitions_insert t.state, ← transitions_insert t.target]
    exact List.mem_flatMap.mpr ⟨s, hs, hu⟩
  obtain ⟨v, hv, ⟨-, rfl⟩ | ⟨-, rfl⟩⟩ := mem_states_register hs
  · rcases State.mem_place hu with hu | hu
    · exact .inl hu
    · exact .inr (hold hv hu)
  · exact .inr (hold hv hu)

theorem consistent_empty : empty.Consistent where
  names_nodup := List.nodup_nil
  owned := fun _ hs => absurd hs List.not_mem_nil
  reads_nodup := fun _ hs => absurd hs List.not_mem_nil
  targets_known := fun _ hs => absurd hs List.not_mem_nil

theorem Consistent.insert {table : Table} (h : table.Consistent) (name : Name) :
    (table.insert name).Consistent where
  names_nodup := by
    rw [names_insert]
    exact Roster.nodup_enter h.names_nodup
  owned := by
    intro s hs t ht
    rcases mem_states_insert hs with hs | rfl
    · exact h.owned s hs t ht
    · cases ht
  reads_nodup := by
    intro s hs
    rcases mem_states_insert hs with hs | rfl
    · exact h.reads_nodup s hs
    · exact List.nodup_nil
  targets_known := by
    intro s hs t ht
    rcases mem_states_insert hs with hs | rfl
    · exact mem_names_insert.mpr (.inl (h.targets_known s hs t ht))
    · cases ht

theorem mem_names_insertAll {names : List Name} {table : Table} {x : Name} :
    x ∈ (table.insertAll names).names ↔ x ∈ table.names ∨ x ∈ names := by
  induction names generalizing table with
  | nil => exact (or_iff_left List.not_mem_nil).symm
  | cons name names ih =>
    rw [insertAll, List.foldl_cons, ← insertAll, ih, mem_names_insert, List.mem_cons, or_assoc]

theorem Consistent.insertAll {table : Table} (h : table.Consistent) (names : List Name) :
    (table.insertAll names).Consistent := by
  induction names generalizing table with
  | nil => exact h
  | cons name names ih => exact ih (h.insert name)

theorem Consistent.register {table : Table} (h : table.Consistent) {t : Transition}
    (htarget : t.target ∈ table.names) : (table.register t).Consistent where
  names_nodup := by
    rw [names_register]
    exact h.names_nodup
  owned := by
    intro s hs u hu
    obtain ⟨v, hv, ⟨hname, rfl⟩ | ⟨-, rfl⟩⟩ := mem_states_register hs
    · rcases State.mem_place hu with rfl | hu
      · exact hname.symm
      · exact h.owned v hv u hu
    · exact h.owned s hv u hu
  reads_nodup := by
    intro s hs
    obtain ⟨v, hv, ⟨hname, rfl⟩ | ⟨-, rfl⟩⟩ := mem_states_register hs
    · have howned : ∀ u ∈ v.transitions, u.state = t.state := by
        intro u hu
        rw [h.owned v hv u hu, hname]
      rw [State.register, State.reads_place howned]
      exact Roster.nodup_enter (h.reads_nodup v hv)
    · exact h.reads_nodup s hv
  targets_known := by
    intro s hs u hu
    rw [names_register]
    obtain ⟨v, hv, ⟨-, rfl⟩ | ⟨-, rfl⟩⟩ := mem_states_register hs
    · rcases State.mem_place hu with rfl | hu
      · exact htarget
      · exact h.targets_known v hv u hu
    · exact h.targets_known s hv u hu

theorem Consistent.append {table : Table} (h : table.Consistent) (t : Transition) :
    (table.append t).Consistent :=
  ((h.insert t.state).insert t.target).register (mem_names_insert.mpr (.inr rfl))

theorem Consistent.unresolved {table : Table} (h : table.Consistent) : table.unresolved = [] := by
  rw [Table.unresolved, List.filter_eq_nil_iff]
  intro t ht
  obtain ⟨s, hs, hts⟩ := List.mem_flatMap.mp ht
  simp [contains_iff.mpr (h.targets_known s hs t hts)]

end Table

end TapeMachine
