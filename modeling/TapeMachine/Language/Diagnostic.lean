import TapeMachine.Language.Scope
import TapeMachine.Reachability
/-!
# Diagnostics

A diagnostic has a cause, a place unless it concerns the description as a whole, and the scope that
was open when it was raised. Its severity and its wording follow from the cause.
-/
namespace TapeMachine

/-- A character that cannot stand where it was read, or one that is missing at the end. -/
inductive Fault
  | strayTerminator
  | strayCharacter (c : Char)
  | strayClose (error : ScopeError)
  | invalidCharacter (c : Char) (scope : Scope)
  | invalidSeparator (scope : Scope)
  | emptyBlockName
  | nameWithoutBlock (name : Name)
  | unclosedBlock (name : Option Name)
  | unterminatedBlockName
  | unterminated (d : Directive)
  deriving DecidableEq

inductive Role
  | target
  | initial
  | halt
  deriving DecidableEq

/-- Why a complete directive is not applied. -/
inductive Refusal
  | emptyTape
  | outsideAlphabet (c : Char)
  | alphabetSymbol (field : List Char)
  | fieldCount (count : Nat)
  | sourceState (field : List Char)
  | readSymbol (field : List Char)
  | writeSymbol (field : List Char)
  | direction (field : List Char)
  | missingState (role : Role)
  | unknownState (role : Role) (field : List Char)
  | invalidState (role : Role) (field : List Char)
  | unknownHalt (name : Name)
  | declaredState (field : List Char)
  deriving DecidableEq

/-- What deserves attention in a directive that is applied. -/
inductive Notice
  | tapeRedefined
  | symbolRepeated (c : Char)
  | stateAdded (name : Name)
  | ruleRedefined (state : Name) (read : Symbol)
  | initialRedefined (previous name : Name)
  | stateKnown (name : Name)
  deriving DecidableEq

/-- Everything that can be reported about a description. -/
inductive Cause
  | fault (f : Fault)
  | refusal (r : Refusal)
  | notice (n : Notice)
  | problem (p : Problem)
  deriving DecidableEq

/-- Whether a report prevents a program. -/
inductive Severity
  | warning
  | error
  deriving DecidableEq

namespace Severity

def word : Severity → String
  | warning => "warning"
  | error => "error"

end Severity

def Fault.message : Fault → String
  | strayTerminator => "Unexpected ';': no open directive to close"
  | strayCharacter c => "Invalid character " ++ Text.inQuotes [c]
  | strayClose error => error.message
  | invalidCharacter c scope => "Invalid character " ++ Text.inQuotes [c] ++ " in " ++ scope.word
  | invalidSeparator scope => "Separator ':' in " ++ scope.word
  | emptyBlockName => "Invalid namespace: empty name"
  | nameWithoutBlock name => "Invalid namespace " ++ Text.inQuotes name ++ ": expected '\x7b'"
  | unclosedBlock name =>
    "Unclosed namespace " ++ Text.inQuotes (name.getD []) ++ ": missing '\x7d'"
  | unterminatedBlockName => "Unterminated namespace name"
  | unterminated d => "Unterminated " ++ d.word ++ ": missing ';'"

def Role.word : Role → String
  | target => "target"
  | initial => "initial"
  | halt => "halt"

def Refusal.message : Refusal → String
  | emptyTape => "Invalid tape string: empty"
  | outsideAlphabet c => "Character not in alphabet " ++ Text.inQuotes [c]
  | alphabetSymbol field =>
    "Invalid alphabet symbol " ++ Text.inQuotes field ++ ": expected a single character"
  | fieldCount count =>
    "Invalid transition: expected <state>:<read> -> <target>:<write>:<dir>, found " ++
      toString count ++ " field(s)"
  | sourceState field => "Invalid source state " ++ Text.inQuotes field
  | readSymbol field =>
    "Invalid read symbol " ++ Text.inQuotes field ++ ": expected a single character or '*'"
  | writeSymbol field =>
    "Invalid write symbol " ++ Text.inQuotes field ++ ": expected a single character or '*'"
  | direction field => "Invalid direction " ++ Text.inQuotes field ++ ": expected L, R or *"
  | missingState role => "Missing " ++ role.word ++ " state"
  | unknownState role field =>
    "Unknown " ++ role.word ++ " state " ++ Text.inQuotes field ++ ": not in transition table"
  | invalidState role field => "Invalid " ++ role.word ++ " state " ++ Text.inQuotes field
  | unknownHalt name =>
    "Invalid halt state " ++ Text.inQuotes name ++ ": not in transition table"
  | declaredState field => "Invalid state " ++ Text.inQuotes field

def Notice.message : Notice → String
  | tapeRedefined => "Multiple tape strings defined! Overwriting previous definition"
  | symbolRepeated c => "Character " ++ Text.inQuotes [c] ++ " already defined in alphabet"
  | stateAdded name =>
    "State " ++ Text.inQuotes name ++ " not found in transition table! Adding it now"
  | ruleRedefined state read =>
    "Transition for state " ++ Text.inQuotes state ++ " reading " ++
      Text.inQuotes [read.toChar] ++ " redefined"
  | initialRedefined previous name =>
    "Initial state redefined: " ++ Text.inQuotes previous ++ " replaced by " ++ Text.inQuotes name
  | stateKnown name => "State " ++ Text.inQuotes name ++ " already defined"

namespace Cause

def severity : Cause → Severity
  | fault _ | refusal _ => .error
  | notice _ => .warning
  | problem p => if p.isFatal then .error else .warning

def message : Cause → String
  | fault f => f.message
  | refusal r => r.message
  | notice n => n.message
  | problem p => p.message

end Cause

/-- A report about a description with places of the kind `μ`. -/
structure Diagnostic (μ : Type) where
  cause : Cause
  place : Option μ
  scope : Scope
  deriving DecidableEq

namespace Diagnostic

def severity {μ : Type} (d : Diagnostic μ) : Severity := d.cause.severity

def isError {μ : Type} (d : Diagnostic μ) : Bool := d.severity == .error

def message {μ : Type} (d : Diagnostic μ) : String := d.cause.message

def errorCount {μ : Type} (ds : List (Diagnostic μ)) : Nat := ds.countP isError

end Diagnostic

end TapeMachine
