import TapeMachine.Proofs.Language.Names
import TapeMachine.Proofs.Language.Reading
/-!
# The grammar of a description

Without layout and comments a description is a sequence of directives and of named blocks that hold
further ones. Its tree says which directives are to be applied, with which fields and inside which
blocks; carrying that out in the order of the text gives a draft and reports.
-/
namespace TapeMachine

inductive Description
  | empty
  | directive (d : Directive) (fields : List (List Char)) (rest : Description)
  | block (name : Name) (inner rest : Description)

namespace Directive

def opener : Directive → Char
  | tape => '&'
  | alphabet => '@'
  | transition => '$'
  | initial => '!'
  | halts => '~'
  | states => '*'

/-- Whether a character ends a field of a directive; an arrow does so in transitions. -/
def separates (d : Directive) (c : Char) : Bool :=
  (d.hasFields && c == ':') || (d == transition && c == '>')

/-- Whether a character of a directive means nothing, as the shaft of an arrow. -/
def ignores (d : Directive) (c : Char) : Bool := d == transition && c == '-'

/-- The text between the opener of a directive and its semicolon, with the fields it holds. -/
inductive Body (d : Directive) : List (List Char) → List Char → Prop
  | empty : Body d [[]] []
  | letter {c : Char} {field : List Char} {fields : List (List Char)} {text : List Char}
      (hc : d.accepts c = true) (h : Body d (field :: fields) text) :
      Body d ((c :: field) :: fields) (c :: text)
  | separator {c : Char} {fields : List (List Char)} {text : List Char}
      (hc : d.separates c = true) (h : Body d fields text) : Body d ([] :: fields) (c :: text)
  | ignored {c : Char} {fields : List (List Char)} {text : List Char}
      (hc : d.ignores c = true) (h : Body d fields text) : Body d fields (c :: text)

theorem opened?_opener (d : Directive) : Scope.opened? d.opener = some (.directive d) := by
  cases d <;> rfl

end Directive

/-- A tree is derived from a text without layout and comments. -/
inductive Description.Derives : Description → List Char → Prop
  | empty : Derives .empty []
  | directive {d : Directive} {fields : List (List Char)} {body : List Char} {rest : Description}
      {text : List Char} (hbody : d.Body fields body) (hrest : Derives rest text) :
      Derives (.directive d fields rest) (d.opener :: (body ++ ';' :: text))
  | block {name : Name} {inner rest : Description} {text more : List Char} (hname : name.Part)
      (hinner : Derives inner text) (hrest : Derives rest more) :
      Derives (.block name inner rest) (':' :: (name ++ '\x7b' :: (text ++ '\x7d' :: more)))

/-- The scope after a character: an opener is followed by its scope, whose end by a block. -/
def Scope.next : Scope → Char → Scope
  | block, c => (opened? c).getD block
  | comment, c => if c = '\n' then block else comment
  | scope, c => if scope.ends c then block else scope

/-- A text without its layout and its comments, read in a scope. -/
def Scope.bare (scope : Scope) : List Char → List Char
  | [] => []
  | c :: rest =>
    if Scan.isLayout c = true ∨ scope = comment ∨ scope.next c = comment then
      bare (scope.next c) rest
    else c :: bare (scope.next c) rest

def bareSource (source : List Char) : List Char := Scope.block.bare source

/-- What a description asks for: to make a block known, or to apply a directive inside blocks. -/
inductive Action
  | declare (path : List Name)
  | apply (path : List Name) (d : Directive) (fields : List (List Char))

/-- What a description inside blocks asks for, in the order of the text. -/
def Description.actions (path : List Name) : Description → List Action
  | empty => []
  | directive d fields rest => .apply path d fields :: rest.actions path
  | block name inner rest =>
    .declare (path ++ [name]) :: (inner.actions (path ++ [name]) ++ rest.actions path)

namespace Draft

/-- The draft after an action and what is reported; a directive that is refused changes nothing. -/
def enact (action : Action) (draft : Draft Unit) : Draft Unit × List Cause :=
  match action with
  | .declare path =>
    let (table, notices) := declare (Name.join path) draft.table
    ({ draft with table }, notices.map .notice)
  | .apply path d fields =>
    match draft.apply path d () fields with
    | .ok (next, notices) => (next, notices.map .notice)
    | .error refusal => (draft, [.refusal refusal])

def enactAll : List Action → Draft Unit → Draft Unit × List Cause
  | [], draft => (draft, [])
  | action :: rest, draft =>
    let (next, first) := draft.enact action
    let (last, others) := enactAll rest next
    (last, first ++ others)

theorem enactAll_cons (action : Action) (rest : List Action) (draft : Draft Unit) :
    enactAll (action :: rest) draft =
      ((enactAll rest (draft.enact action).1).1,
        (draft.enact action).2 ++ (enactAll rest (draft.enact action).1).2) := rfl

theorem enactAll_append (front back : List Action) (draft : Draft Unit) :
    enactAll (front ++ back) draft =
      ((enactAll back (enactAll front draft).1).1,
        (enactAll front draft).2 ++ (enactAll back (enactAll front draft).1).2) := by
  induction front generalizing draft with
  | nil => rfl
  | cons action front ih =>
    rw [List.cons_append, enactAll_cons, ih, enactAll_cons, List.append_assoc]

end Draft

variable {μ : Type}

namespace Scan

/-- What the next character asks for: the end of a block name or of a directive without a fault. -/
def action? (c : Char) (s : Scan μ) : Option Action :=
  if s.item.spoilt then none
  else match s.scopes.top with
    | .directive d => if c = ';' then some (.apply s.scopes.path d s.item.allFields) else none
    | .blockName =>
      if c = '\x7b' ∧ s.item.current ≠ [] then
        some (.declare (s.scopes.path ++ [s.item.current.reverse]))
      else none
    | _ => none

def actions : List (μ × Char) → Scan μ → List Action
  | [], _ => []
  | (place, c) :: rest, s => (s.action? c).toList ++ actions rest (s.read place c)

theorem actions_append (front back : List (μ × Char)) (s : Scan μ) :
    s.actions (front ++ back) = s.actions front ++ (s.readAll front).actions back := by
  induction front generalizing s with
  | nil => rfl
  | cons p front ih =>
    obtain ⟨place, c⟩ := p
    rw [List.cons_append, actions, ih, actions, readAll_cons, List.append_assoc]

end Scan

end TapeMachine
