import TapeMachine.Name
/-!
# Transitions

A transition leaves its state when the symbol under the head is accepted, writes a symbol, moves
the head and enters its target. The wildcard accepts every symbol and writes none.
-/
namespace TapeMachine

/-- A movement of the head by at most one cell. -/
inductive Direction
  | left
  | right
  | stay
  deriving DecidableEq

namespace Direction

def letter : Direction → Char
  | left => 'L'
  | right => 'R'
  | stay => Glyph.wildcard

def ofLetter? (c : Char) : Option Direction :=
  if c = 'L' then some left
  else if c = 'R' then some right
  else if c = Glyph.wildcard then some stay
  else none

def word : Direction → String
  | left => "Left"
  | right => "Right"
  | stay => "Stay"

theorem ofLetter?_eq_some_iff {c : Char} {d : Direction} :
    ofLetter? c = some d ↔ c = d.letter := by
  constructor
  · unfold ofLetter?
    intro h
    split at h
    next hc => obtain rfl := Option.some.inj h; exact hc
    split at h
    next hc => obtain rfl := Option.some.inj h; exact hc
    split at h
    next hc => obtain rfl := Option.some.inj h; exact hc
    cases h
  · rintro rfl
    cases d <;> decide

end Direction

/-- What a transition reads or writes. -/
inductive Symbol
  | any
  | char (c : Char)
  deriving DecidableEq

namespace Symbol

def ofChar (c : Char) : Symbol := if c = Glyph.wildcard then any else char c

def toChar : Symbol → Char
  | any => Glyph.wildcard
  | char c => c

def accepts : Symbol → Char → Bool
  | any, _ => true
  | char c, cell => c == cell

def writtenOver : Symbol → Char → Char
  | any, cell => cell
  | char c, _ => c

end Symbol

/-- What happens in a state when an accepted symbol is under the head. -/
structure Transition where
  state : Name
  read : Symbol
  target : Name
  write : Symbol
  direction : Direction
  deriving DecidableEq

namespace Transition

def text (t : Transition) : List Char :=
  t.state ++ [':', t.read.toChar] ++ " -> ".toList ++ t.target ++
    [':', t.write.toChar, ':', t.direction.letter]

/-- Whether two transitions answer the same question: same state and same symbol read. -/
def sameRule (s t : Transition) : Bool := s.state == t.state && s.read == t.read

def accepts (t : Transition) (cell : Char) : Bool := t.read.accepts cell

theorem sameRule_iff {s t : Transition} :
    s.sameRule t = true ↔ s.state = t.state ∧ s.read = t.read := by
  simp [sameRule]

end Transition

end TapeMachine
