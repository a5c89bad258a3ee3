import TapeMachine.Proofs.Language.Directives
import TapeMachine.Proofs.Language.Reading
import TapeMachine.Proofs.Table.Rules
/-!
# How the anonymous state becomes known

No directive names the anonymous state but as the source of a transition. So it is known only where
it owns a transition (`anchored_readSource`).
-/
namespace TapeMachine

namespace Name

theorem join_ne_nil {parts : List Name} {part : Name} (hmem : part ∈ parts) (hpart : part ≠ []) :
    join parts ≠ [] := by
  induction parts with
  | nil => cases hmem
  | cons first rest ih =>
    cases rest with
    | nil =>
      rw [join_singleton, ← List.mem_singleton.mp hmem]
      exact hpart
    | cons second rest =>
      rw [join_cons_cons]
      exact List.append_ne_nil_of_right_ne_nil _ (List.cons_ne_nil _ _)

theorem qualify_ne_anonymous (path : List Name) {name : Name} (h : name ≠ anonymous) :
    qualify path name ≠ anonymous := by
  rw [qualify, if_neg h]
  exact join_ne_nil (List.mem_append_right path (List.mem_singleton.mpr rfl)) h

end Name

namespace Table

/-- The anonymous state is known with a transition of its own only. -/
def Anchored (table : Table) : Prop :=
  Name.anonymous ∈ table.names → table.rules Name.anonymous ≠ []

/-- What one character may do to a table. -/
inductive Grows (table : Table) : Table → Prop
  | names (names : List Name) (hnames : ∀ name ∈ names, name ≠ Name.anonymous) :
      Grows table (table.insertAll names)
  | transition (t : Transition) (htarget : t.target ∈ table.names ∨ t.target ≠ Name.anonymous) :
      Grows table (table.append t)

theorem rules_insertAll (names : List Name) (table : Table) (x : Name) :
    (table.insertAll names).rules x = table.rules x := by
  induction names generalizing table with
  | nil => rfl
  | cons name names ih => rw [insertAll, List.foldl_cons, ← insertAll, ih, rules_insert]

theorem Grows.refl (table : Table) : table.Grows table := .names [] fun _ h => nomatch h

theorem Grows.mem_names {table next : Table} (h : table.Grows next) {name : Name}
    (hname : name ∈ table.names) : name ∈ next.names := by
  cases h with
  | names names hnames => exact mem_names_insertAll.mpr (.inl hname)
  | transition t htarget => exact mem_names_append.mpr (.inl hname)

theorem Grows.anchored {table next : Table} (h : table.Grows next) (ha : table.Anchored) :
    next.Anchored := by
  intro hknown
  cases h with
  | names names hnames =>
    rw [rules_insertAll]
    rcases mem_names_insertAll.mp hknown with hknown | hnew
    · exact ha hknown
    · exact absurd rfl (hnames _ hnew)
  | transition t htarget =>
    rw [rules_append]
    split
    -- The transition is one of the anonymous state itself.
    next =>
      cases table.rules Name.anonymous with
      | nil => exact List.cons_ne_nil _ _
      | cons u rest =>
        rw [State.place]
        split <;> exact List.cons_ne_nil _ _
    next hstate =>
      rcases mem_names_append.mp hknown with hknown | hnew | hnew
      · exact ha hknown
      · exact absurd hnew hstate
      · exact ha (htarget.elim (hnew ▸ ·) fun hne => absurd hnew.symm hne)

end Table

variable {μ : Type}

theorem Draft.Applies.grows {draft next : Draft μ} {path : List Name} {d : Directive} {start : μ}
    {fields : List (List Char)} (h : Draft.Applies path start fields draft d next) :
    draft.table.Grows next.table := by
  cases h with
  | tape => exact .refl _
  | alphabet => exact .refl _
  | initial => exact .refl _
  | halts => exact .refl _
  | transition t ht =>
    obtain ⟨_, _, _, _, _, -, -, -, htarget, -⟩ := Draft.transition_eq_ok ht
    refine .transition t ?_
    rcases Draft.resolve_eq_ok htarget with ⟨-, hknown⟩ | ⟨hlocal, hname⟩
    · exact .inl hknown
    · rw [hname]
      exact .inr (Name.qualify_ne_anonymous path hlocal.named)
  | states hfields =>
    refine .names _ ?_
    intro name hname
    obtain ⟨field, hfield, rfl⟩ := List.mem_map.mp hname
    exact Name.qualify_ne_anonymous path (hfields field hfield).1

namespace Scan

theorem Reads.grows {place : μ} {c : Char} {s t : Scan μ} (hr : Reads place c s t) :
    s.draft.table.Grows t.draft.table := by
  cases hr with
  | commits d frame outer hs =>
    rw [draft_settle]
    cases happly : s.draft.apply outer.path d s.item.start s.item.allFields with
    | error r => exact .refl _
    | ok result => exact (Draft.applies_of_apply happly).grows
  | names frame outer hs hframe hc hsound hname =>
    rw [draft_declareBlock]
    refine .names [_] ?_
    intro name hmem
    rw [List.mem_singleton.mp hmem, Scopes.qualify, Name.qualify, if_pos rfl]
    have hpart : s.item.current.reverse ≠ [] := by simpa using hname
    exact Name.join_ne_nil (List.mem_append_right _ (List.mem_singleton.mpr rfl)) hpart
  | passes => exact .refl _
  | opens => exact .refl _
  | strays => exact .refl _
  | closes => exact .refl _
  | collects => exact .refl _
  | separates => exact .refl _
  | rejects => exact .refl _
  | discards => exact .refl _
  | abandons => exact .refl _
  | numbers => exact .refl _
  | blanks => exact .refl _
  | drops => exact .refl _
  | interrupts => exact .refl _

end Scan

theorem anchored_readSource (source : List Char) : (readSource source).draft.table.Anchored :=
  Scan.readAll_induction (P := fun s => s.draft.table.Anchored)
    (fun _ hr ha => hr.grows.anchored ha) (Scan.orderly_begin Mark.origin)
    (fun h => absurd h List.not_mem_nil) _

end TapeMachine
