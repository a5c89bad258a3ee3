import TapeMachine.Text.Alphanumeric
/-!
# Characters of a description

The letters of every script and the digits may stand for symbols and in names; five other
characters have a meaning of their own there.
-/
namespace TapeMachine.Glyph

def blank : Char := '_'

def wildcard : Char := '*'

def separator : Char := '.'

def markers : List Char := ['#', blank]

def isCell (c : Char) : Bool := Text.isAlphanumeric c || markers.contains c

def isTransition (c : Char) : Bool := isCell c || c == separator || c == wildcard

def isState (c : Char) : Bool := Text.isAlphanumeric c || c == separator

def isNamespace (c : Char) : Bool := Text.isAlphanumeric c

theorem isCell_blank : isCell blank = true := by decide

theorem isCell_wildcard : isCell wildcard = false := by decide

end TapeMachine.Glyph
