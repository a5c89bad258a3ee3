import TapeMachine.Name
import TapeMachine.Text.Decimal
/-!
# Scopes of a description

A description is a sequence of directives, namespace blocks and comments. Each is opened by one
character, and the innermost open one decides how the next character is taken. The outermost block
has no frame of its own, so without a frame the scope is a block.
-/
namespace TapeMachine

/-- What a directive sets: the tape, the alphabet, a transition or states of some kind. -/
inductive Directive
  | tape
  | alphabet
  | transition
  | initial
  | halts
  | states
  deriving DecidableEq

namespace Directive

def word : Directive → String
  | tape => "tape string"
  | alphabet => "alphabet"
  | transition => "transition"
  | initial => "initial state"
  | halts => "halt states"
  | states => "states"

def hasFields : Directive → Bool
  | tape | initial => false
  | alphabet | transition | halts | states => true

def accepts : Directive → Char → Bool
  | tape | alphabet => Glyph.isCell
  | transition => Glyph.isTransition
  | initial | halts | states => Glyph.isState

end Directive

/-- What the next character belongs to. -/
inductive Scope
  | directive (d : Directive)
  | blockName
  | block
  | comment
  deriving DecidableEq

namespace Scope

def word : Scope → String
  | directive d => d.word
  | blockName => "namespace name"
  | block => "namespace"
  | comment => "comment"

def opened? : Char → Option Scope
  | '&' => some (directive .tape)
  | '@' => some (directive .alphabet)
  | '$' => some (directive .transition)
  | '!' => some (directive .initial)
  | '~' => some (directive .halts)
  | '*' => some (directive .states)
  | ':' => some blockName
  | '#' => some comment
  | _ => none

def hasFields : Scope → Bool
  | directive d => d.hasFields
  | _ => false

def accepts : Scope → Char → Bool
  | directive d, c => d.accepts c
  | blockName, c => Glyph.isNamespace c
  | block, _ => false
  | comment, _ => true

end Scope

/-- An open scope; a block also has a name, unless its name was not valid. -/
structure Frame where
  scope : Scope
  name : Option Name
  deriving DecidableEq

inductive ScopeError
  | mismatch (expected found : Scope)
  | atRoot (expected : Scope)
  deriving DecidableEq

def ScopeError.message : ScopeError → String
  | mismatch expected found => "Tried to exit " ++ expected.word ++ " but found " ++ found.word
  | atRoot expected => "Cannot exit " ++ expected.word ++ ". At root level!"

abbrev Scopes := List Frame

namespace Scopes

def top : Scopes → Scope
  | [] => .block
  | frame :: _ => frame.scope

def enter (scope : Scope) (name : Option Name) (scopes : Scopes) : Scopes :=
  ⟨scope, name⟩ :: scopes

/-- Closes the innermost scope, which is the expected one. -/
def exit (expected : Scope) : Scopes → Except ScopeError (Frame × Scopes)
  | [] => .error (.atRoot expected)
  | frame :: outer =>
    if frame.scope = expected then .ok (frame, outer)
    else .error (.mismatch expected frame.scope)

/-- The names of the open blocks, outermost first; a block without a name has its depth. -/
def path : Scopes → List Name
  | [] => []
  | frame :: outer =>
    let above := path outer
    if frame.scope = .block then above ++ [frame.name.getD (Text.decimal (above.length + 1))]
    else above

def qualify (scopes : Scopes) (name : Name) : Name := Name.qualify scopes.path name

end Scopes

end TapeMachine
