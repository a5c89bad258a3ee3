import TapeMachine.Language.Draft
/-!
# Reading a description

A description is read one character at a time. The innermost open scope and the character decide
what happens; layout means nothing except that a line break ends a comment. The characters of a
directive or of a block name are collected in an item. An item that holds a fault is spoilt: the
rest of it is passed over and it has no effect. Places are of any kind `μ`, as reading only carries
them along.
-/
namespace TapeMachine

/-- The fields read so far, newest first, and the field being read, newest character first. -/
structure Item (μ : Type) where
  fields : List (List Char)
  current : List Char
  spoilt : Bool
  start : μ
  deriving DecidableEq

namespace Item

variable {μ : Type}

def fresh (start : μ) : Item μ := ⟨[], [], false, start⟩

def separate (item : Item μ) : Item μ :=
  { item with fields := item.current.reverse :: item.fields, current := [] }

def push (c : Char) (item : Item μ) : Item μ := { item with current := c :: item.current }

def allFields (item : Item μ) : List (List Char) := item.separate.fields.reverse

end Item

/-- The open scopes, the item being read, what was described, and the reports, newest first. -/
structure Scan (μ : Type) where
  scopes : Scopes
  item : Item μ
  draft : Draft μ
  log : List (Diagnostic μ)
  deriving DecidableEq

namespace Scan

variable {μ : Type}

def begin (place : μ) : Scan μ := ⟨[], Item.fresh place, Draft.empty, []⟩

def report (cause : Cause) (place : μ) (s : Scan μ) : Scan μ :=
  { s with log := ⟨cause, some place, s.scopes.top⟩ :: s.log }

def reportAll (notices : List Notice) (place : μ) (s : Scan μ) : Scan μ :=
  notices.foldl (fun s n => s.report (.notice n) place) s

def reject (fault : Fault) (place : μ) (s : Scan μ) : Scan μ :=
  let s := s.report (.fault fault) place
  { s with item := { s.item with spoilt := true } }

def enter (scope : Scope) (place : μ) (s : Scan μ) : Scan μ :=
  { s with scopes := s.scopes.enter scope none, item := Item.fresh place }

/-- Closes the innermost scope; it is a fault if that is not the expected one. -/
def leave (scope : Scope) (place : μ) (s : Scan μ) : Scan μ :=
  match s.scopes.exit scope with
  | .ok (_, outer) => { s with scopes := outer }
  | .error e => s.report (.fault (.strayClose e)) place

def dropItem (place : μ) (s : Scan μ) : Scan μ := { s with item := Item.fresh place }

def declareBlock (place : μ) (s : Scan μ) : Scan μ :=
  let (table, notices) := Draft.declare (s.scopes.qualify Name.anonymous) s.draft.table
  { s with draft := { s.draft with table } }.reportAll notices place

/-- Opens a block; without a valid name it opens too, so that its end matches. -/
def openBlock (name : Option Name) (place : μ) (s : Scan μ) : Scan μ :=
  let s := { s with scopes := s.scopes.enter .block name }
  if name.isSome then s.declareBlock place else s

def finishName (place : μ) (s : Scan μ) : Scan μ :=
  let item := s.item
  let s := (s.dropItem place).leave .blockName place
  if item.spoilt then s.openBlock none place
  else if item.current = [] then
    (s.report (.fault .emptyBlockName) place).openBlock none place
  else s.openBlock (some item.current.reverse) place

def abandonName (place : μ) (s : Scan μ) : Scan μ :=
  let item := s.item
  let s := (s.dropItem place).leave .blockName place
  if item.spoilt then s else s.report (.fault (.nameWithoutBlock item.current.reverse)) place

/-- Closes the innermost scope if it is a block; else it is a fault, unless the item had one. -/
def leaveBlock (spoilt : Bool) (place : μ) (s : Scan μ) : Scan μ :=
  match s.scopes.exit .block with
  | .ok (_, outer) => { s with scopes := outer }
  | .error e => if spoilt then s else s.report (.fault (.strayClose e)) place

/-- The end of a block inside an item: the block is not innermost, so both are closed. -/
def interrupt (scope : Scope) (place : μ) (s : Scan μ) : Scan μ :=
  let item := s.item
  let s := (s.dropItem place).leaveBlock item.spoilt place
  let s := s.leave scope place
  if s.scopes.path = [] then s else s.leave .block place

/-- Applies the outcome of a directive that begins at `start`. -/
def settle (start : μ) (applied : Applied μ) (s : Scan μ) : Scan μ :=
  match applied with
  | .error r => s.report (.refusal r) start
  | .ok (draft, notices) => { s with draft }.reportAll notices start

/-- A semicolon in a directive: the directive is applied unless it is spoilt. -/
def commit (d : Directive) (place : μ) (s : Scan μ) : Scan μ :=
  let item := s.item
  let s := (s.dropItem place).leave (.directive d) place
  if item.spoilt then s
  else s.settle item.start (s.draft.apply s.scopes.path d item.start item.allFields)

def readInBlock (place : μ) (c : Char) (s : Scan μ) : Scan μ :=
  if c = '\x7d' then s.leave .block place
  else if c = ';' then s.report (.fault .strayTerminator) place
  else match Scope.opened? c with
    | some scope => s.enter scope place
    | none => s.report (.fault (.strayCharacter c)) place

def collect (scope : Scope) (place : μ) (c : Char) (s : Scan μ) : Scan μ :=
  if s.item.spoilt then s
  else if c = ':' then
    if scope.hasFields then { s with item := s.item.separate }
    else s.reject (.invalidSeparator scope) place
  else if scope.accepts c then { s with item := s.item.push c }
  else s.reject (.invalidCharacter c scope) place

def readInName (place : μ) (c : Char) (s : Scan μ) : Scan μ :=
  if c = '\x7b' then s.finishName place
  else if c = ';' then s.abandonName place
  else if c = '\x7d' then s.interrupt .blockName place
  else s.collect .blockName place c

/-- A character inside a directive; in a transition an arrow separates fields as a colon does. -/
def readInDirective (d : Directive) (place : μ) (c : Char) (s : Scan μ) : Scan μ :=
  if c = '\x7d' then s.interrupt (.directive d) place
  else if c = ';' then s.commit d place
  else if d = .transition ∧ c = '-' then s
  else if d = .transition ∧ c = '>' then s.collect (.directive d) place ':'
  else s.collect (.directive d) place c

def isLayout (c : Char) : Bool := c == ' ' || c == '\t' || c == '\r' || c == '\n'

def read (place : μ) (c : Char) (s : Scan μ) : Scan μ :=
  match s.scopes.top with
  | .comment => if c = '\n' then s.leave .comment place else s
  | .block => if isLayout c then s else s.readInBlock place c
  | .blockName => if isLayout c then s else s.readInName place c
  | .directive d => if isLayout c then s else s.readInDirective d place c

def readAll (source : List (μ × Char)) (s : Scan μ) : Scan μ :=
  source.foldl (fun s p => s.read p.1 p.2) s

theorem readAll_cons (place : μ) (c : Char) (rest : List (μ × Char)) (s : Scan μ) :
    s.readAll ((place, c) :: rest) = (s.read place c).readAll rest := rfl

theorem readAll_append (front back : List (μ × Char)) (s : Scan μ) :
    s.readAll (front ++ back) = (s.readAll front).readAll back := List.foldl_append

def unfinished? (spoilt : Bool) (frame : Frame) : Option Fault :=
  match frame.scope with
  | .comment => none
  | .block => some (.unclosedBlock frame.name)
  | .blockName => if spoilt then none else some .unterminatedBlockName
  | .directive d => if spoilt then none else some (.unterminated d)

/-- The end of the source: every open scope is closed, innermost first. -/
def close (place : μ) (s : Scan μ) : Scan μ :=
  (s.scopes.filterMap (unfinished? s.item.spoilt)).foldl
    (fun s fault => s.report (.fault fault) place) { s with scopes := [] }

def diagnostics (s : Scan μ) : List (Diagnostic μ) := s.log.reverse

end Scan

end TapeMachine
