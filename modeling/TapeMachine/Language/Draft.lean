import TapeMachine.Language.Diagnostic
import TapeMachine.Program
import TapeMachine.Roster
/-!
# Applying directives

A draft is what the directives read so far amount to. A directive is applied with the names of the
blocks around it, the place where it begins and its fields. It is refused without any effect, or it
yields the next draft and notices.
-/
namespace TapeMachine

/-- The parts of a program that have been described so far. -/
structure Draft (μ : Type) where
  table : Table
  alphabet : List Char
  tape : Option (List Char)
  initial : Option (Name × μ)
  halts : List Name
  deriving DecidableEq

/-- The next draft with notices, or why a directive is refused. -/
abbrev Applied (μ : Type) := Except Refusal (Draft μ × List Notice)

namespace Draft

variable {μ : Type}

def empty : Draft μ := ⟨Table.empty, [], none, none, []⟩

/-- Whether a symbol may stand on the tape; a blank always may. -/
def allows (draft : Draft μ) (c : Char) : Bool := c == Glyph.blank || draft.alphabet.contains c

def setTape (content : List Char) (draft : Draft μ) : Applied μ :=
  if content = [] then .error .emptyTape
  else match content.find? (!draft.allows ·) with
    | some c => .error (.outsideAlphabet c)
    | none =>
      .ok ({ draft with tape := some content }, if draft.tape.isSome then [.tapeRedefined] else [])

def symbols : List (List Char) → Except Refusal (List Char)
  | [] => .ok []
  | [c] :: rest => (symbols rest).map (c :: ·)
  | field :: _ => .error (.alphabetSymbol field)

/-- Sets the alphabet in place of the one before; the blank always belongs to it. -/
def setAlphabet (fields : List (List Char)) (draft : Draft μ) : Applied μ :=
  (symbols fields).map fun found =>
    ({ draft with alphabet := Roster.enterAll [] (found ++ [Glyph.blank]) },
      (found.filter draft.alphabet.contains).map .symbolRepeated)

/--
The state that a field refers to. After a leading separator stands the whole name of a known state;
any other name is one inside the blocks around the directive.
-/
def resolve (path : List Name) (role : Role) (field : List Char) (draft : Draft μ) :
    Except Refusal Name :=
  match field with
  | [] => .error (.missingState role)
  | c :: rest =>
    if c = Glyph.separator then
      if draft.table.contains rest then .ok rest else .error (.unknownState role field)
    else if Name.isStateName field then .ok (Name.qualify path field)
    else .error (.invalidState role field)

/-- The state that a transition leaves; without a name it is that of the innermost block. -/
def source (path : List Name) (field : List Char) : Except Refusal Name :=
  if field = [] ∨ field = [Glyph.wildcard] then .ok (Name.qualify path Name.anonymous)
  else if field.head? = some Glyph.separator ∨ Name.isStateName field = false then
    .error (.sourceState field)
  else .ok (Name.qualify path field)

/-- The symbol of a field: one character that a cell may hold, or the wildcard. -/
def symbol? : List Char → Option Symbol
  | [c] => if c = Glyph.wildcard ∨ Glyph.isCell c = true then some (Symbol.ofChar c) else none
  | _ => none

def direction? : List Char → Option Direction
  | [c] => Direction.ofLetter? c
  | _ => none

def orRefuse {α : Type} (refusal : Refusal) : Option α → Except Refusal α
  | some a => .ok a
  | none => .error refusal

def transition (path : List Name) (draft : Draft μ) :
    List (List Char) → Except Refusal Transition
  | [state, read, target, write, direction] => do
    let state ← source path state
    let readSymbol ← orRefuse (.readSymbol read) (symbol? read)
    let target ← draft.resolve path .target target
    let writeSymbol ← orRefuse (.writeSymbol write) (symbol? write)
    let way ← orRefuse (.direction direction) (direction? direction)
    .ok ⟨state, readSymbol, target, writeSymbol, way⟩
  | fields => .error (.fieldCount fields.length)

def appendNotices (t : Transition) (table : Table) : List Notice :=
  ((table.created t).filter (· ≠ Name.anonymous)).map .stateAdded ++
    if table.replaces t then [.ruleRedefined t.state t.read] else []

def addTransition (path : List Name) (fields : List (List Char)) (draft : Draft μ) : Applied μ :=
  (draft.transition path fields).map fun t =>
    ({ draft with table := draft.table.append t }, appendNotices t draft.table)

/-- Sets the initial state, with the place where this was done. -/
def setInitial (path : List Name) (start : μ) (field : List Char) (draft : Draft μ) : Applied μ :=
  (draft.resolve path .initial field).map fun name =>
    ({ draft with initial := some (name, start) },
      match draft.initial with
      | none => []
      | some (previous, _) => [.initialRedefined previous name])

def haltNames (path : List Name) (draft : Draft μ) :
    List (List Char) → Except Refusal (List Name)
  | [] => .ok []
  | field :: rest => do
    let name ← draft.resolve path .halt field
    if draft.table.contains name then (haltNames path draft rest).map (name :: ·)
    else .error (.unknownHalt name)

/-- Adds states that halt; the one that always halts is not listed. -/
def addHalts (path : List Name) (fields : List (List Char)) (draft : Draft μ) : Applied μ :=
  (draft.haltNames path fields).map fun names =>
    ({ draft with halts := Roster.enterAll draft.halts (names.filter (· ≠ Name.halt)) }, [])

def declare (name : Name) (table : Table) : Table × List Notice :=
  (table.insert name, if table.contains name then [.stateKnown name] else [])

def declareAll (path : List Name) : List (List Char) → Table → Table × List Notice
  | [], table => (table, [])
  | field :: rest, table =>
    let (next, first) := declare (Name.qualify path field) table
    let (last, others) := declareAll path rest next
    (last, first ++ others)

def addStates (path : List Name) (fields : List (List Char)) (draft : Draft μ) : Applied μ :=
  match fields.find? fun field => field.isEmpty || field.head? == some Glyph.separator with
  | some field => .error (.declaredState field)
  | none =>
    let (table, notices) := declareAll path fields draft.table
    .ok ({ draft with table }, notices)

/-- Applies a directive that begins at `start` inside the blocks of `path`. -/
def apply (path : List Name) (d : Directive) (start : μ) (fields : List (List Char))
    (draft : Draft μ) : Applied μ :=
  match d with
  | .tape => draft.setTape fields.flatten
  | .alphabet => draft.setAlphabet fields
  | .transition => draft.addTransition path fields
  | .initial => draft.setInitial path start fields.flatten
  | .halts => draft.addHalts path fields
  | .states => draft.addStates path fields

end Draft

end TapeMachine
