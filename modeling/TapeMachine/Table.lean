import TapeMachine.Transition
/-!
# The transition table

A table lists states in the order in which they became known, each under a name of its own, and
under each state its transitions, at most one for a symbol read. A transition that is appended
makes its two states known and takes the place of an earlier one for the same symbol.
-/
namespace TapeMachine

/-- A state and its transitions in the order in which their symbols were first given. -/
structure State where
  name : Name
  transitions : List Transition
  deriving DecidableEq

namespace State

def isAnonymous (s : State) : Bool := s.name == Name.anonymous

def find? (s : State) (cell : Char) : Option Transition := s.transitions.find? (·.accepts cell)

/-- Puts a transition in the place of one for the same symbol, or at the end. -/
def place (t : Transition) : List Transition → List Transition
  | [] => [t]
  | u :: rest => if u.sameRule t then t :: rest else u :: place t rest

def register (t : Transition) (s : State) : State :=
  { s with transitions := place t s.transitions }

end State

/-- States in the order in which they became known. -/
structure Table where
  states : List State
  deriving DecidableEq

namespace Table

def empty : Table := ⟨[]⟩

def names (table : Table) : List Name := table.states.map (·.name)

def indexOf? (table : Table) (name : Name) : Option Nat :=
  table.states.findIdx? (·.name == name)

def get? (table : Table) (name : Name) : Option State :=
  table.states.find? (·.name == name)

def contains (table : Table) (name : Name) : Bool := table.states.any (·.name == name)

def insert (name : Name) (table : Table) : Table :=
  if table.contains name then table else ⟨table.states ++ [⟨name, []⟩]⟩

def register (t : Transition) (table : Table) : Table :=
  ⟨table.states.map fun s => if s.name = t.state then s.register t else s⟩

def append (t : Transition) (table : Table) : Table :=
  ((table.insert t.state).insert t.target).register t

/-- The names that appending a transition makes known, in their order. -/
def created (t : Transition) (table : Table) : List Name :=
  (if table.contains t.state then [] else [t.state]) ++
    (if (table.insert t.state).contains t.target then [] else [t.target])

def replaces (t : Transition) (table : Table) : Bool :=
  (table.get? t.state).any fun s => s.transitions.any (·.sameRule t)

def transitions (table : Table) : List Transition := table.states.flatMap (·.transitions)

def unresolved (table : Table) : List Transition :=
  table.transitions.filter fun t => !table.contains t.target

def own? (table : Table) (name : Name) (cell : Char) : Option Transition :=
  (table.get? name).bind (·.find? cell)

/-- The transition to apply: the state's own, or else the anonymous state's. -/
def lookup (table : Table) (name : Name) (cell : Char) : Option Transition :=
  (table.own? name cell).or (table.own? Name.anonymous cell)

theorem contains_iff {table : Table} {name : Name} :
    table.contains name = true ↔ name ∈ table.names := by
  simp only [contains, names, List.any_eq_true, List.mem_map, beq_iff_eq]

theorem get?_isSome {table : Table} {name : Name} :
    (table.get? name).isSome = table.contains name := List.isSome_find?

theorem name_of_get? {table : Table} {name : Name} {s : State} (h : table.get? name = some s) :
    s.name = name := by
  have hs := List.find?_some h
  exact beq_iff_eq.1 hs

theorem mem_names_insert {table : Table} {name x : Name} :
    x ∈ (table.insert name).names ↔ x ∈ table.names ∨ x = name := by
  unfold insert
  split
  next h =>
    refine ⟨.inl, ?_⟩
    rintro (hx | rfl)
    · exact hx
    · exact contains_iff.1 h
  next => simp only [names, List.map_append, List.map_cons, List.map_nil, List.mem_append,
    List.mem_singleton]

theorem names_register (t : Transition) (table : Table) :
    (table.register t).names = table.names := by
  simp only [names, register, List.map_map]
  apply List.map_congr_left
  intro s _
  simp only [Function.comp_apply]
  split <;> rfl

theorem mem_names_append {table : Table} {t : Transition} {x : Name} :
    x ∈ (table.append t).names ↔ x ∈ table.names ∨ x = t.state ∨ x = t.target := by
  rw [append, names_register, mem_names_insert, mem_names_insert, or_assoc]

end Table

end TapeMachine
