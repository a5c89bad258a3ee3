import TapeMachine.Proofs.Table.Appending
/-!
# The rules of a name

A table is known by its names and by the transitions that stand under each of them. Appending a
transition changes the rules of its own state only, so a table can be built up again from its
transitions (`rules_appendAll`).
-/
namespace TapeMachine.Table

def rules (table : Table) (name : Name) : List Transition :=
  match table.get? name with
  | none => []
  | some s => s.transitions

def appendAll (ts : List Transition) (table : Table) : Table :=
  ts.foldl (fun table t => table.append t) table

variable {table : Table} {name : Name}

theorem get?_eq_some (h : name ∈ table.names) :
    table.get? name = some ⟨name, table.rules name⟩ := by
  have hsome : (table.get? name).isSome = true := by rw [get?_isSome, contains_iff.mpr h]
  obtain ⟨s, hs⟩ := Option.isSome_iff_exists.mp hsome
  rw [rules, hs, ← name_of_get? hs]

theorem get?_eq_none (h : name ∉ table.names) : table.get? name = none := by
  rw [← Option.not_isSome_iff_eq_none, get?_isSome, contains_iff]
  exact h

theorem rules_of_not_mem (h : name ∉ table.names) : table.rules name = [] := by
  rw [rules, get?_eq_none h]

theorem get?_congr {other : Table} (hnames : ∀ x, x ∈ other.names ↔ x ∈ table.names)
    (hrules : ∀ x, other.rules x = table.rules x) (name : Name) :
    other.get? name = table.get? name := by
  by_cases h : name ∈ table.names
  · rw [get?_eq_some h, get?_eq_some ((hnames name).mpr h), hrules]
  · rw [get?_eq_none h, get?_eq_none fun hother => h ((hnames name).mp hother)]

theorem get?_insert_of_ne {x : Name} (h : x ≠ name) :
    (table.insert name).get? x = table.get? x := by
  have hnew : [(⟨name, []⟩ : State)].find? (·.name == x) = none := by simp [h.symm]
  rw [get?, states_insert, List.find?_append, get?]
  split
  · simp
  · rw [hnew, Option.or_none]

theorem rules_insert (x : Name) : (table.insert name).rules x = table.rules x := by
  by_cases hx : x = name
  · subst hx
    by_cases hknown : x ∈ table.names
    · rw [insert, if_pos (contains_iff.mpr hknown)]
    · have hlast : table.states.find? (·.name == x) = none := get?_eq_none hknown
      have hnew : ¬table.contains x = true := fun h => hknown (contains_iff.mp h)
      rw [rules_of_not_mem hknown, rules, get?, states_insert, List.find?_append, hlast,
        if_neg hnew]
      simp
  · rw [rules, get?_insert_of_ne hx, rules]

theorem get?_register (t : Transition) (x : Name) :
    (table.register t).get? x =
      (table.get? x).map fun s => if s.name = t.state then s.register t else s := by
  have hname : ∀ s : State, (if s.name = t.state then s.register t else s).name = s.name := by
    intro s
    split <;> rfl
  simp only [get?, register, List.find?_map, Function.comp_def, hname]

theorem rules_append (t : Transition) (x : Name) :
    (table.append t).rules x =
      if x = t.state then State.place t (table.rules x) else table.rules x := by
  have hgrown : ∀ x, ((table.insert t.state).insert t.target).rules x = table.rules x := by
    intro x
    rw [rules_insert, rules_insert]
  have hstate : t.state ∈ ((table.insert t.state).insert t.target).names :=
    mem_names_insert.mpr (.inl (mem_names_insert.mpr (.inr rfl)))
  rw [append, rules, get?_register]
  by_cases hx : x = t.state
  · rw [if_pos hx, hx, get?_eq_some hstate, hgrown]
    simp [State.register]
  · rw [if_neg hx]
    by_cases hknown : x ∈ ((table.insert t.state).insert t.target).names
    · rw [get?_eq_some hknown, hgrown]
      simp [hx]
    · rw [get?_eq_none hknown, ← hgrown, rules_of_not_mem hknown]
      rfl

theorem mem_names_appendAll {ts : List Transition} {x : Name} :
    x ∈ (table.appendAll ts).names ↔ x ∈ table.names ∨ ∃ t ∈ ts, x = t.state ∨ x = t.target := by
  induction ts generalizing table with
  | nil => simp [appendAll]
  | cons t ts ih =>
    rw [appendAll, List.foldl_cons, ← appendAll, ih, mem_names_append]
    simp [or_assoc]

theorem replaces_eq_any (t : Transition) :
    table.replaces t = (table.rules t.state).any (·.sameRule t) := by
  rw [replaces, rules]
  cases table.get? t.state with
  | none => rfl
  | some s => rfl

def Fresh (table : Table) (ts : List Transition) : Prop :=
  ∀ x, ((table.rules x ++ ts.filter (·.state == x)).map (·.read)).Nodup

theorem Fresh.replaces {t : Transition} {ts : List Transition} (h : table.Fresh (t :: ts)) :
    table.replaces t = false := by
  rw [replaces_eq_any, List.any_eq_false]
  intro u hu hrule
  have hread := (Transition.sameRule_iff.mp hrule).2
  have hnodup := h t.state
  simp only [List.filter_cons, beq_self_eq_true, if_true, List.map_append, List.map_cons,
    List.nodup_append] at hnodup
  exact hnodup.2.2 u.read (List.mem_map_of_mem hu) t.read List.mem_cons_self hread

theorem rules_append_append {t : Transition} {ts : List Transition} (h : table.Fresh (t :: ts))
    (x : Name) :
    (table.append t).rules x ++ ts.filter (·.state == x) =
      table.rules x ++ (t :: ts).filter (·.state == x) := by
  rw [rules_append, List.filter_cons]
  by_cases hx : x = t.state
  · have hnew : (table.rules x).any (·.sameRule t) = false := by
      rw [hx, ← replaces_eq_any, h.replaces]
    rw [if_pos hx, State.place_of_new hnew]
    simp [hx]
  · rw [if_neg hx]
    simp [Ne.symm hx]

theorem Fresh.append {t : Transition} {ts : List Transition} (h : table.Fresh (t :: ts)) :
    (table.append t).Fresh ts := by
  intro x
  rw [rules_append_append h]
  exact h x

theorem rules_appendAll {ts : List Transition} (h : table.Fresh ts) (x : Name) :
    (table.appendAll ts).rules x = table.rules x ++ ts.filter (·.state == x) := by
  -- By induction on the transitions: fresh ones are listed in their order.
  induction ts generalizing table with
  | nil => simp [appendAll]
  | cons t ts ih =>
    rw [appendAll, List.foldl_cons, ← appendAll, ih h.append, rules_append_append h]

theorem Consistent.known_of_mem_transitions (hc : table.Consistent) {t : Transition}
    (ht : t ∈ table.transitions) : t.state ∈ table.names ∧ t.target ∈ table.names := by
  obtain ⟨s, hs, hts⟩ := List.mem_flatMap.mp ht
  rw [hc.owned s hs t hts]
  exact ⟨List.mem_map_of_mem hs, hc.targets_known s hs t hts⟩

theorem Consistent.rules_of_mem (hc : table.Consistent) {s : State} (hs : s ∈ table.states) :
    table.rules s.name = s.transitions := by
  rw [rules, hc.get?_of_mem hs]

theorem Consistent.filter_transitions (hc : table.Consistent) (name : Name) :
    table.transitions.filter (·.state == name) = table.rules name := by
  obtain ⟨hnames, howned, -, -⟩ := hc
  obtain ⟨states⟩ := table
  induction states with
  | nil => rfl
  | cons s states ih =>
    have hs : ∀ t ∈ s.transitions, t.state = s.name := howned s List.mem_cons_self
    have hrest := ih (List.nodup_cons.mp hnames).2
      fun u hu => howned u (List.mem_cons_of_mem s hu)
    have hcons : (⟨s :: states⟩ : Table).transitions.filter (·.state == name) =
        s.transitions.filter (·.state == name) ++
          (⟨states⟩ : Table).transitions.filter (·.state == name) := List.filter_append ..
    rw [hcons, hrest]
    by_cases hname : s.name = name
    · have hall : s.transitions.filter (·.state == name) = s.transitions := by
        rw [List.filter_eq_self]
        intro t ht
        rw [hs t ht, hname]
        exact beq_self_eq_true name
      have hlast : (⟨states⟩ : Table).rules name = [] := by
        apply rules_of_not_mem
        rw [← hname]
        exact (List.nodup_cons.mp hnames).1
      rw [hall, hlast, List.append_nil]
      simp [rules, get?, hname]
    · have hnone : s.transitions.filter (·.state == name) = [] := by
        rw [List.filter_eq_nil_iff]
        intro t ht
        rw [hs t ht]
        simpa using hname
      rw [hnone, List.nil_append]
      simp [rules, get?, hname]

theorem Consistent.state_of_mem_rules (hc : table.Consistent) {t : Transition}
    (ht : t ∈ table.rules name) : t.state = name := by
  rw [← hc.filter_transitions name] at ht
  simpa using (List.mem_filter.mp ht).2

theorem Consistent.reads_rules (hc : table.Consistent) (name : Name) :
    ((table.rules name).map (·.read)).Nodup := by
  by_cases h : name ∈ table.names
  · obtain ⟨s, hs, rfl⟩ := List.mem_map.mp h
    rw [hc.rules_of_mem hs]
    exact hc.reads_nodup s hs
  · rw [rules_of_not_mem h]
    exact List.nodup_nil

theorem Consistent.states_nodup (hc : table.Consistent) : table.states.Nodup :=
  (List.pairwise_map.mp hc.names_nodup).imp fun hne heq => hne (congrArg State.name heq)

/-- Two tables with the same names and rules list the same states, perhaps in another order. -/
theorem Consistent.perm {other : Table} (hc : table.Consistent) (hother : other.Consistent)
    (h : ∀ name, other.get? name = table.get? name) : other.states.Perm table.states := by
  rw [List.perm_ext_iff_of_nodup hother.states_nodup hc.states_nodup]
  intro s
  constructor
  · intro hs
    exact List.mem_of_find?_eq_some ((h s.name).symm.trans (hother.get?_of_mem hs))
  · intro hs
    exact List.mem_of_find?_eq_some ((h s.name).trans (hc.get?_of_mem hs))

end TapeMachine.Table
