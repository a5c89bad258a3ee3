/-!
# Rosters

A roster lists each entry once, in the order in which the entries first arrived.
-/
namespace TapeMachine.Roster

def enter {α : Type} [DecidableEq α] (roster : List α) (entry : α) : List α :=
  if entry ∈ roster then roster else roster ++ [entry]

def enterAll {α : Type} [DecidableEq α] (roster entries : List α) : List α :=
  entries.foldl enter roster

section
variable {α : Type} [DecidableEq α]

theorem mem_enter {roster : List α} {entry x : α} :
    x ∈ enter roster entry ↔ x ∈ roster ∨ x = entry := by
  unfold enter
  split
  · constructor
    · exact .inl
    · rintro (h | rfl)
      · exact h
      · assumption
  · simp only [List.mem_append, List.mem_singleton]

theorem enter_cons_of_ne {first entry : α} (rest : List α) (h : entry ≠ first) :
    enter (first :: rest) entry = first :: enter rest entry := by
  unfold enter
  by_cases hrest : entry ∈ rest
  · rw [if_pos hrest, if_pos (List.mem_cons_of_mem first hrest)]
  · rw [if_neg hrest, if_neg (List.not_mem_cons_of_ne_of_not_mem h hrest), List.cons_append]

theorem mem_enterAll {roster entries : List α} {x : α} :
    x ∈ enterAll roster entries ↔ x ∈ roster ∨ x ∈ entries := by
  induction entries generalizing roster with
  | nil => simp [enterAll]
  | cons entry entries ih =>
    rw [enterAll, List.foldl_cons, ← enterAll, ih, mem_enter, List.mem_cons, or_assoc]

/-- The first entry with a property is the first one that arrived with it. -/
theorem find?_enterAll (roster entries : List α) (p : α → Bool) :
    (enterAll roster entries).find? p = (roster ++ entries).find? p := by
  induction entries generalizing roster with
  | nil => simp [enterAll]
  | cons entry entries ih =>
    rw [enterAll, List.foldl_cons, ← enterAll, ih, enter, List.find?_append, List.find?_append]
    split
    next hmem =>
      cases hroster : roster.find? p with
      | none =>
        have hentry : ¬p entry = true := List.find?_eq_none.mp hroster entry hmem
        rw [List.find?_cons_of_neg hentry]
      | some x => rfl
    next => simp [← List.find?_append]

theorem nodup_enter {roster : List α} {entry : α} (h : roster.Nodup) :
    (enter roster entry).Nodup := by
  unfold enter
  split
  · exact h
  next hne =>
    rw [List.nodup_append]
    refine ⟨h, List.nodup_cons.2 ⟨List.not_mem_nil, List.nodup_nil⟩, ?_⟩
    intro x hx y hy hxy
    rw [List.mem_singleton] at hy
    subst hxy hy
    exact hne hx

theorem nodup_enterAll {roster entries : List α} (h : roster.Nodup) :
    (enterAll roster entries).Nodup := by
  induction entries generalizing roster with
  | nil => exact h
  | cons entry entries ih => exact ih (nodup_enter h)

end

end TapeMachine.Roster
