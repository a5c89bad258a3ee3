import TapeMachine.Proofs.Table.Appending
import Mathlib.Logic.Function.Basic
/-!
# Tables that keep the places of names

A state is found at once if the place of its name was written down when the name became known. Such
a table has two parts that must not come apart. Whatever is inserted and appended, the places
written down are those of the states, so it is the same table (`edited_keeps_places`).
-/
namespace TapeMachine

inductive Edit
  | insert (name : Name)
  | append (t : Transition)

def Edit.apply (table : Table) : Edit → Table
  | insert name => table.insert name
  | append t => table.append t

def Table.edited (edits : List Edit) : Table := edits.foldl Edit.apply Table.empty

/-- A table with the places of its names beside its states. -/
structure Placed where
  states : List State
  places : Name → Option Nat

/-- What is reported of an appended transition: the names it made known, and whether it took the
place of another one. -/
structure Addition where
  created : List Name
  replaced : Bool
  deriving DecidableEq

namespace Placed

def empty : Placed := ⟨[], fun _ => none⟩

/-- Makes a name known at the next place, and tells whether it was not known. -/
def insert (name : Name) (p : Placed) : Bool × Placed :=
  if (p.places name).isSome then (false, p)
  else (true, ⟨p.states ++ [⟨name, []⟩], Function.update p.places name (some p.states.length)⟩)

/-- Makes names known one after another, and tells which were not known. -/
def insertAll : List Name → Placed → List Name × Placed
  | [], p => ([], p)
  | name :: names, p =>
    let (isNew, p) := p.insert name
    let (others, p) := insertAll names p
    (if isNew then name :: others else others, p)

def get? (name : Name) (p : Placed) : Option State := (p.places name).bind (p.states[·]?)

/-- Adds a transition to the state at the place of its own, and tells whether it took the place of
another one. There is nothing if no place was written down or it lies outside the states. -/
def register (t : Transition) (p : Placed) : Option (Bool × Placed) :=
  (p.places t.state).bind fun i => p.states[i]?.map fun s =>
    (s.transitions.any (·.sameRule t), { p with states := p.states.set i (s.register t) })

def append (t : Transition) (p : Placed) : Option (Addition × Placed) :=
  let (created, grown) := p.insertAll [t.state, t.target]
  (grown.register t).map fun (replaced, p) => (⟨created, replaced⟩, p)

def edit? (p : Placed) : Edit → Option Placed
  | .insert name => some (p.insert name).2
  | .append t => (p.append t).map (·.2)

/-- The table that changes make of the empty one, if each finds the place it needs. -/
def edited? (edits : List Edit) : Option Placed := edits.foldlM edit? empty

/-- The two parts of a table belong together: the places are those of the states. -/
structure Keeps (p : Placed) (table : Table) : Prop where
  states : p.states = table.states
  places : ∀ name i, p.places name = some i ↔ table.names[i]? = some name

theorem keeps_empty : empty.Keeps Table.empty where
  states := rfl
  places := by simp [empty, Table.empty, Table.names]

variable {p : Placed} {table : Table}

theorem Keeps.isSome (h : p.Keeps table) (name : Name) :
    (p.places name).isSome = table.contains name := by
  rw [Bool.eq_iff_iff, Option.isSome_iff_exists, Table.contains_iff, List.mem_iff_getElem?]
  simp only [h.places]

theorem Keeps.length (h : p.Keeps table) : p.states.length = table.names.length := by
  simp [h.states, Table.names]

private theorem getElem?_concat_iff {names : List Name} {name other : Name} (hnew : name ∉ names)
    (i : Nat) : (names ++ [name])[i]? = some other ↔
      if other = name then i = names.length else names[i]? = some other := by
  rcases Nat.lt_trichotomy i names.length with hi | rfl | hi
  · have hne : other = name → names[i]? ≠ some other := by
      rintro rfl hmem
      exact hnew (List.mem_of_getElem? hmem)
    rw [List.getElem?_append_left hi]
    split
    next heq => simp [hne heq, Nat.ne_of_lt hi]
    next => exact Iff.rfl
  · simp [eq_comm]
  · rw [List.getElem?_eq_none (by simp; omega), List.getElem?_eq_none (Nat.le_of_lt hi)]
    simp [Nat.ne_of_gt hi]

theorem Keeps.insert (h : p.Keeps table) (name : Name) :
    (p.insert name).1 = !table.contains name ∧ (p.insert name).2.Keeps (table.insert name) := by
  rw [Placed.insert, Table.insert, h.isSome]
  cases hknown : table.contains name with
  | true => exact ⟨rfl, h⟩
  | false =>
    have hnew : name ∉ table.names := by simp [← Table.contains_iff, hknown]
    refine ⟨rfl, ?_, ?_⟩
    · simp [h.states]
    · intro other i
      have hnames : (⟨table.states ++ [⟨name, []⟩]⟩ : Table).names = table.names ++ [name] := by
        simp [Table.names]
      simp only [Bool.false_eq_true, if_false, hnames, getElem?_concat_iff hnew, h.length,
        Function.update_apply]
      split
      · simp [eq_comm]
      · exact h.places other i

theorem Keeps.insertAll (h : p.Keeps table) (names : List Name) :
    (p.insertAll names).2.Keeps (table.insertAll names) := by
  induction names generalizing p table with
  | nil => exact h
  | cons name names ih => exact ih (h.insert name).2

theorem Keeps.created (h : p.Keeps table) (t : Transition) :
    (p.insertAll [t.state, t.target]).1 = table.created t := by
  obtain ⟨hfirst, hp⟩ := h.insert t.state
  obtain ⟨hsecond, -⟩ := hp.insert t.target
  simp only [Placed.insertAll, hfirst, hsecond, Table.created]
  cases table.contains t.state <;> cases (table.insert t.state).contains t.target <;> rfl

private theorem states_register (hnames : table.names.Nodup) {t : Transition} {i : Nat} {s : State}
    (hi : table.states[i]? = some s) (hs : s.name = t.state) :
    (table.register t).states = table.states.set i (s.register t) := by
  obtain ⟨hlt, hget⟩ := List.getElem?_eq_some_iff.mp hi
  apply List.ext_getElem?
  intro j
  rw [Table.register, List.getElem?_map, List.getElem?_set]
  by_cases hij : i = j
  · subst hij
    simp [hs, hlt, hget]
  · rw [if_neg hij]
    cases hj : table.states[j]? with
    | none => rfl
    | some u =>
      have hne : u.name ≠ t.state := by
        intro hu
        have hsame : table.names[i]? = table.names[j]? := by simp [Table.names, hi, hj, hs, hu]
        exact hij ((List.getElem?_inj (by simpa [Table.names] using hlt) hnames).mp hsame)
      simp [hne]

theorem Keeps.register (h : p.Keeps table) (hc : table.Consistent) {t : Transition}
    (hstate : t.state ∈ table.names) :
    ∃ q, p.register t = some (table.replaces t, q) ∧ q.Keeps (table.register t) := by
  obtain ⟨i, hi⟩ := List.mem_iff_getElem?.mp hstate
  have hplace : p.places t.state = some i := (h.places t.state i).mpr hi
  rw [Table.names, List.getElem?_map, Option.map_eq_some_iff] at hi
  obtain ⟨s, hs, hname⟩ := hi
  refine ⟨{ p with states := p.states.set i (s.register t) }, ?_, ?_, ?_⟩
  · simp [Placed.register, hplace, h.states, hs, hc.replaces_eq (List.mem_of_getElem? hs) hname]
  · rw [states_register hc.names_nodup hs hname, h.states]
  · intro name j
    rw [Table.names_register]
    exact h.places name j

theorem Keeps.append (h : p.Keeps table) (hc : table.Consistent) (t : Transition) :
    ∃ q, p.append t = some (⟨table.created t, table.replaces t⟩, q) ∧ q.Keeps (table.append t) := by
  have hgrown := h.insertAll [t.state, t.target]
  have hconsistent := hc.insertAll [t.state, t.target]
  obtain ⟨q, hregister, hq⟩ := hgrown.register hconsistent (t := t)
    (Table.mem_names_insertAll.mpr (.inr List.mem_cons_self))
  have hreplaces : (table.insertAll [t.state, t.target]).replaces t = table.replaces t := by
    rw [Bool.eq_iff_iff, hc.replaces_iff, hconsistent.replaces_iff, Table.transitions_insertAll]
  refine ⟨q, ?_, hq⟩
  simp [Placed.append, hregister, h.created, hreplaces]

theorem Keeps.edited (h : p.Keeps table) (hc : table.Consistent) (edits : List Edit) :
    (edits.foldl Edit.apply table).Consistent ∧
      ∃ q, edits.foldlM edit? p = some q ∧ q.Keeps (edits.foldl Edit.apply table) := by
  -- By induction on the changes, from the first to the last.
  induction edits generalizing p table with
  | nil => exact ⟨hc, p, rfl, h⟩
  | cons edit edits ih =>
    cases edit with
    | insert name => exact ih (h.insert name).2 (hc.insert name)
    | append t =>
      obtain ⟨q, happend, hq⟩ := h.append hc t
      have hfirst : edit? p (.append t) = some q := by rw [edit?, happend]; rfl
      rw [List.foldlM_cons, hfirst]
      exact ih hq (hc.append t)

end Placed

namespace Table

theorem Consistent.indexOf?_eq_some_iff {table : Table} (h : table.Consistent) {name : Name}
    {i : Nat} : table.indexOf? name = some i ↔ table.names[i]? = some name := by
  simp only [indexOf?, List.findIdx?_eq_some_iff_getElem, beq_iff_eq, names, List.getElem?_map,
    Option.map_eq_some_iff]
  constructor
  · rintro ⟨hi, hname, -⟩
    exact ⟨_, List.getElem?_eq_getElem hi, hname⟩
  · rintro ⟨s, hs, rfl⟩
    obtain ⟨hi, rfl⟩ := List.getElem?_eq_some_iff.mp hs
    refine ⟨hi, rfl, ?_⟩
    intro j hj
    exact List.pairwise_iff_getElem.mp (List.pairwise_map.mp h.names_nodup) j i (by omega) hi hj

theorem get?_eq_bind (table : Table) (name : Name) :
    table.get? name = (table.indexOf? name).bind (table.states[·]?) := by
  rw [get?, indexOf?]
  exact List.find?_eq_bind_findIdx?_getElem?

end Table

/-- The places written down answer every question as a search through the states does. -/
theorem Placed.Keeps.answers {p : Placed} {table : Table} (h : p.Keeps table)
    (hc : table.Consistent) (name : Name) :
    p.places name = table.indexOf? name ∧ (p.places name).isSome = table.contains name ∧
      p.get? name = table.get? name := by
  have hplaces : p.places name = table.indexOf? name := by
    ext i
    rw [h.places, hc.indexOf?_eq_some_iff]
  refine ⟨hplaces, h.isSome name, ?_⟩
  rw [Placed.get?, hplaces, h.states, Table.get?_eq_bind]

/--
Whatever is inserted and appended, every place that is needed is found: the places written down are
those of the states, and finding a state by its place is the same as searching for it. The table
stays consistent. A further transition is reported and makes the changes that `Table.Appended`
lists.
-/
theorem edited_keeps_places (edits : List Edit) :
    let table := Table.edited edits
    table.Consistent ∧ table.unresolved = [] ∧
    (∀ t ∈ table.transitions, t.state ∈ table.names ∧ t.target ∈ table.names) ∧
    ∃ p, Placed.edited? edits = some p ∧ p.Keeps table ∧
      (∀ name, p.places name = table.indexOf? name ∧
        (p.places name).isSome = table.contains name ∧ p.get? name = table.get? name) ∧
      ∀ t, ∃ addition q, p.append t = some (addition, q) ∧ q.Keeps (table.append t) ∧
        table.Appended t (table.append t) addition.created addition.replaced := by
  intro table
  obtain ⟨hc, p, hp, hkeeps⟩ := Placed.keeps_empty.edited Table.consistent_empty edits
  have hknown : ∀ t ∈ table.transitions, t.state ∈ table.names ∧ t.target ∈ table.names := by
    intro t ht
    obtain ⟨s, hs, hts⟩ := List.mem_flatMap.mp ht
    refine ⟨?_, hc.targets_known s hs t hts⟩
    rw [hc.owned s hs t hts]
    exact List.mem_map_of_mem hs
  refine ⟨hc, hc.unresolved, hknown, p, hp, hkeeps, hkeeps.answers hc, ?_⟩
  intro t
  obtain ⟨q, happend, hq⟩ := hkeeps.append hc t
  exact ⟨_, q, happend, hq, hc.appended t⟩

/-- A loop makes its state known once and replaces the transition that reads the same symbol. -/
example : (Table.edited [.insert ['a'], .append ⟨['b'], .any, ['b'], .any, .stay⟩,
    .append ⟨['b'], .any, ['c'], .char '1', .right⟩]).states =
    [⟨['a'], []⟩, ⟨['b'], [⟨['b'], .any, ['c'], .char '1', .right⟩]⟩, ⟨['c'], []⟩] := by decide

end TapeMachine
