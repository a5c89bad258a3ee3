import TapeMachine.Glyph
/-!
# Names of states

A state is known by its qualified name alone: the names of the namespaces around it and its own
name, with the separator between two of them. The empty name is that of the anonymous state, whose
transitions serve every state.
-/
namespace TapeMachine

abbrev Name := List Char

namespace Name

def anonymous : Name := []

def halt : Name := ['H', 'A', 'L', 'T']

/-- Whether a name holds only characters of state names. -/
def isStateName (name : Name) : Bool := name.all Glyph.isState

def join (parts : List Name) : Name := List.intercalate [Glyph.separator] parts

/-- A name inside the namespaces of `path`; the empty name is that of the innermost of them. -/
def qualify (path : List Name) (name : Name) : Name :=
  join (if name = anonymous then path else path ++ [name])

theorem qualify_nil (name : Name) : qualify [] name = name := by
  by_cases h : name = anonymous
  · subst h
    rfl
  · simp [qualify, h, join, List.intercalate]

end Name

end TapeMachine
