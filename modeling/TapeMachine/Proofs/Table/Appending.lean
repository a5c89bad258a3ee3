import TapeMachine.Proofs.Table.Consistency
/-!
# What appending a transition does

The states that were there keep their order and come first, then the names that were missing. Only
the transitions of the transition's own state change: one for the same symbol is replaced where it
stands, otherwise the new one comes last (`Consistent.appended`).
-/
namespace TapeMachine

namespace State

def replaceRule (t : Transition) (ts : List Transition) : List Transition :=
  ts.map fun u => if u.sameRule t then t else u

theorem place_of_new {t : Transition} {ts : List Transition}
    (h : ts.any (·.sameRule t) = false) : place t ts = ts ++ [t] := by
  induction ts with
  | nil => rfl
  | cons u rest ih =>
    simp only [List.any_cons, Bool.or_eq_false_iff] at h
    rw [place, if_neg (by rw [h.1]; exact Bool.false_ne_true), ih h.2, List.cons_append]

theorem place_of_known {t : Transition} {ts : List Transition}
    (hreads : (ts.map (·.read)).Nodup) (h : ts.any (·.sameRule t) = true) :
    place t ts = replaceRule t ts := by
  induction ts with
  | nil => cases h
  | cons u rest ih =>
    rw [List.map_cons, List.nodup_cons] at hreads
    rw [place, replaceRule, List.map_cons, ← replaceRule]
    by_cases hu : u.sameRule t = true
    · have hrest : replaceRule t rest = rest := by
        rw [replaceRule, List.map_congr_left, List.map_id]
        intro v hv
        have hread : u.read = t.read := (Transition.sameRule_iff.mp hu).2
        have hne : ¬v.sameRule t = true := by
          intro hv'
          apply hreads.1
          rw [hread, ← (Transition.sameRule_iff.mp hv').2]
          exact List.mem_map_of_mem hv
        exact if_neg hne
      rw [if_pos hu, if_pos hu, hrest]
    · have hknown : rest.any (·.sameRule t) = true := by
        simpa [hu] using h
      rw [if_neg hu, if_neg hu, ih hreads.2 hknown]

end State

namespace Table

/-- The names of a transition that a table lacks: its state, then its target if that is another. -/
def missing (t : Transition) (table : Table) : List Name :=
  (Roster.enterAll [] [t.state, t.target]).filter (· ∉ table.names)

/-- A state that a transition makes known: only its own state has a transition at once. -/
def newState (t : Transition) (name : Name) : State := ⟨name, if name = t.state then [t] else []⟩

/-- What `next` is and what is reported when a transition is appended to a table. -/
structure Appended (t : Transition) (table next : Table) (created : List Name) (replaced : Bool) :
    Prop where
  missing : created = table.missing t
  names : next.names = table.names ++ created
  kept : ∀ (i : Nat) (s : State), table.states[i]? = some s → s.name ≠ t.state →
    next.states[i]? = some s
  own : ∀ (i : Nat) (s : State), table.states[i]? = some s → s.name = t.state →
    next.states[i]? = some ⟨s.name,
      if replaced then State.replaceRule t s.transitions else s.transitions ++ [t]⟩
  added : next.states.drop table.states.length = created.map (newState t)
  again : replaced = true ↔ ∃ u ∈ table.transitions, u.state = t.state ∧ u.read = t.read

theorem created_eq_missing (t : Transition) (table : Table) :
    table.created t = table.missing t := by
  have hstate : table.contains t.state = decide (t.state ∈ table.names) := by
    rw [Bool.eq_iff_iff, contains_iff, decide_eq_true_iff]
  have htarget : (table.insert t.state).contains t.target =
      decide (t.target ∈ table.names ∨ t.target = t.state) := by
    rw [Bool.eq_iff_iff, contains_iff, mem_names_insert, decide_eq_true_iff]
  rw [created, missing, hstate, htarget]
  by_cases hs : t.state ∈ table.names <;> by_cases ht : t.target ∈ table.names <;>
    by_cases hsame : t.target = t.state <;> simp_all [Roster.enterAll, Roster.enter]

theorem states_insert (name : Name) (table : Table) :
    (table.insert name).states =
      table.states ++ if table.contains name then [] else [⟨name, []⟩] := by
  unfold insert
  split
  · rw [List.append_nil]
  · rfl

/-- The states after a transition was appended, before its own state takes it up. -/
theorem states_insert_insert (t : Transition) (table : Table) :
    ((table.insert t.state).insert t.target).states =
      table.states ++ (table.created t).map fun name => ⟨name, []⟩ := by
  rw [states_insert, states_insert, created, List.append_assoc, List.map_append]
  congr 2 <;> split <;> rfl

theorem getElem?_append_states (t : Transition) (table : Table) (i : Nat) (s : State)
    (h : table.states[i]? = some s) :
    (table.append t).states[i]? = some (if s.name = t.state then s.register t else s) := by
  obtain ⟨hi, -⟩ := List.getElem?_eq_some_iff.mp h
  rw [append, register, List.getElem?_map, states_insert_insert, List.getElem?_append_left hi, h]
  rfl

theorem get?_of_mem {table : Table} (h : table.names.Nodup) {s : State} (hs : s ∈ table.states) :
    table.get? s.name = some s := by
  obtain ⟨i, hi, rfl⟩ := List.mem_iff_getElem.mp hs
  rw [get?, List.find?_eq_some_iff_getElem]
  refine ⟨beq_iff_eq.mpr rfl, i, hi, rfl, ?_⟩
  intro j hj
  have hnodup := List.pairwise_map.mp h
  simpa using List.pairwise_iff_getElem.mp hnodup j i (by omega) hi hj

theorem Consistent.get?_of_mem {table : Table} (h : table.Consistent) {s : State}
    (hs : s ∈ table.states) : table.get? s.name = some s :=
  Table.get?_of_mem h.names_nodup hs

theorem Consistent.replaces_iff {table : Table} (h : table.Consistent) (t : Transition) :
    table.replaces t = true ↔ ∃ u ∈ table.transitions, u.state = t.state ∧ u.read = t.read := by
  simp only [replaces, Option.any_eq_true, List.any_eq_true, Transition.sameRule_iff]
  constructor
  · rintro ⟨s, hs, u, hu, hrule⟩
    exact ⟨u, List.mem_flatMap.mpr ⟨s, List.mem_of_find?_eq_some hs, hu⟩, hrule⟩
  · rintro ⟨u, hu, hstate, hread⟩
    obtain ⟨s, hs, hus⟩ := List.mem_flatMap.mp hu
    have hname : s.name = t.state := by rw [← h.owned s hs u hus, hstate]
    exact ⟨s, by rw [← hname, h.get?_of_mem hs], u, hus, hstate, hread⟩

theorem Consistent.replaces_eq {table : Table} (h : table.Consistent) {t : Transition} {s : State}
    (hs : s ∈ table.states) (hname : s.name = t.state) :
    table.replaces t = s.transitions.any (·.sameRule t) := by
  rw [replaces, ← hname, h.get?_of_mem hs]
  rfl

theorem Consistent.register_own {table : Table} (h : table.Consistent) {t : Transition} {s : State}
    (hs : s ∈ table.states) (hname : s.name = t.state) :
    s.register t = ⟨s.name,
      if table.replaces t then State.replaceRule t s.transitions else s.transitions ++ [t]⟩ := by
  rw [State.register, h.replaces_eq hs hname]
  cases hany : s.transitions.any (·.sameRule t) with
  | true => rw [State.place_of_known (h.reads_nodup s hs) hany, if_pos rfl]
  | false => rw [State.place_of_new hany, if_neg Bool.false_ne_true]

theorem Consistent.appended {table : Table} (h : table.Consistent) (t : Transition) :
    table.Appended t (table.append t) (table.created t) (table.replaces t) where
  missing := table.created_eq_missing t
  names := by
    rw [Table.append, names_register, names, states_insert_insert, List.map_append, List.map_map, names]
    exact congrArg (table.states.map (·.name) ++ ·) (List.map_id _)
  kept := by
    intro i s hi hname
    rw [getElem?_append_states t table i s hi, if_neg hname]
  own := by
    intro i s hi hname
    rw [getElem?_append_states t table i s hi, if_pos hname,
      h.register_own (List.mem_of_getElem? hi) hname]
  added := by
    rw [Table.append, Table.register, states_insert_insert, List.map_append,
      List.drop_left' (List.length_map _), List.map_map]
    apply List.map_congr_left
    intro name _
    simp only [Function.comp_apply, newState]
    split <;> rfl
  again := h.replaces_iff t

end Table

end TapeMachine
