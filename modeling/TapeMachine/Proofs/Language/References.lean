import TapeMachine.Proofs.Engine.Entered
import TapeMachine.Proofs.Language.Actions
import TapeMachine.Proofs.Language.Anonymous
/-!
# References to the anonymous state

The initial state, halting states and targets are given by fields that refer to states. A plain
field is never the anonymous state. A field that is the separator alone is: what stands after the
separator is the empty name, which is accepted where the anonymous state is known. So a program
refers to the anonymous state exactly where its source holds such a field (`compile_references`).
-/
namespace TapeMachine

def Action.references (role : Role) : Action → List (List Char)
  | .apply _ .initial fields => if role = .initial then [fields.flatten] else []
  | .apply _ .halts fields => if role = .halt then fields else []
  | .apply _ .transition [_, _, target, _, _] => if role = .target then [target] else []
  | _ => []

/-- An action gives a transition; its field `target` refers to the target by its whole name or as
one inside the blocks around the directive. -/
def Action.Describes (t : Transition) (target : List Char) (action : Action) : Prop :=
  ∃ path state read write direction,
    action = .apply path .transition [state, read, target, write, direction] ∧
      Draft.source path state = .ok t.state ∧ Draft.symbol? read = some t.read ∧
      (target = Glyph.separator :: t.target ∨
        Name.Local target ∧ t.target = Name.qualify path target) ∧
      Draft.symbol? write = some t.write ∧ Draft.direction? direction = some t.direction

namespace Draft

variable {μ : Type}

theorem resolve_eq_anonymous_iff {path : List Name} {role : Role} {field : List Char}
    {draft : Draft μ} {name : Name} (h : draft.resolve path role field = .ok name) :
    name = Name.anonymous ↔ field = [Glyph.separator] := by
  rcases resolve_eq_ok h with ⟨rfl, -⟩ | ⟨hlocal, rfl⟩
  · simp [Name.anonymous]
  · have hqualified := Name.qualify_ne_anonymous path hlocal.named
    refine ⟨fun hname => absurd hname hqualified, ?_⟩
    rintro rfl
    exact absurd rfl hlocal.relative

theorem anonymous_mem_haltNames_iff {path : List Name} {draft : Draft μ}
    {fields : List (List Char)} {names : List Name}
    (h : draft.haltNames path fields = .ok names) :
    Name.anonymous ∈ names ↔ [Glyph.separator] ∈ fields := by
  induction fields generalizing names with
  | nil =>
    cases h
    simp
  | cons field rest ih =>
    obtain ⟨first, hfirst, h⟩ := ok_of_bind h
    split at h
    next =>
      obtain ⟨others, hothers, rfl⟩ := ok_of_map h
      rw [List.mem_cons, List.mem_cons, ih hothers, eq_comm, resolve_eq_anonymous_iff hfirst,
        eq_comm]
    next => cases h

/-- A draft refers to the anonymous state where the actions behind it do. -/
structure Refers (asked : List Action) (draft : Draft Unit) : Prop where
  initial : draft.initial.map Prod.fst = some Name.anonymous ↔
    (asked.flatMap (Action.references .initial)).getLast? = some [Glyph.separator]
  halts : Name.anonymous ∈ draft.halts ↔
    [Glyph.separator] ∈ asked.flatMap (Action.references .halt)
  transitions : ∀ t ∈ draft.table.transitions, ∃ action ∈ asked, ∃ target,
    action.Describes t target ∧ (t.target = Name.anonymous ↔ target = [Glyph.separator])

theorem refers_empty : Refers [] empty where
  initial := by simp [empty]
  halts := by simp [empty]
  transitions := fun t ht => nomatch ht

variable {asked : List Action} {draft next : Draft Unit}

private theorem Refers.frame (h : Refers asked draft) {action : Action}
    (hnone : ∀ role, action.references role = []) (hinitial : next.initial = draft.initial)
    (hhalts : next.halts = draft.halts)
    (htransitions : next.table.transitions = draft.table.transitions) :
    Refers (asked ++ [action]) next := by
  have hrefs : ∀ role, (asked ++ [action]).flatMap (Action.references role) =
      asked.flatMap (Action.references role) := by
    intro role
    simp [hnone role]
  refine ⟨?_, ?_, ?_⟩
  · rw [hrefs, hinitial]
    exact h.initial
  · rw [hrefs, hhalts]
    exact h.halts
  · intro t ht
    rw [htransitions] at ht
    obtain ⟨earlier, hmem, hgives⟩ := h.transitions t ht
    exact ⟨earlier, List.mem_append_left _ hmem, hgives⟩

private theorem Refers.earlier (h : Refers asked draft) (action : Action) {t : Transition}
    (ht : t ∈ draft.table.transitions) : ∃ a ∈ asked ++ [action], ∃ target,
      a.Describes t target ∧ (t.target = Name.anonymous ↔ target = [Glyph.separator]) := by
  obtain ⟨earlier, hmem, hgives⟩ := h.transitions t ht
  exact ⟨earlier, List.mem_append_left _ hmem, hgives⟩

private theorem Refers.applied (h : Refers asked draft) {path : List Name} {d : Directive}
    {fields : List (List Char)} (happlies : Applies path () fields draft d next) :
    Refers (asked ++ [.apply path d fields]) next := by
  cases happlies with
  | tape => exact h.frame (fun _ => rfl) rfl rfl rfl
  | alphabet => exact h.frame (fun _ => rfl) rfl rfl rfl
  | states => exact h.frame (fun _ => rfl) rfl rfl (Table.transitions_insertAll _ _)
  | initial name hname =>
    refine ⟨?_, ?_, fun t ht => h.earlier _ ht⟩
    · simpa [Action.references] using resolve_eq_anonymous_iff hname
    · simpa [Action.references] using h.halts
  | halts names hnames =>
    refine ⟨?_, ?_, fun t ht => h.earlier _ ht⟩
    · simpa [Action.references] using h.initial
    · have hhalt : Name.anonymous ≠ Name.halt := by decide
      rw [Roster.mem_enterAll, List.mem_filter, h.halts, anonymous_mem_haltNames_iff hnames]
      simp [Action.references, hhalt]
  | transition t ht =>
    obtain ⟨state, read, target, write, direction, rfl, hstate, hread, htarget, hwrite, hdirection⟩ :=
      transition_eq_ok ht
    refine ⟨?_, ?_, ?_⟩
    · simpa [Action.references] using h.initial
    · simpa [Action.references] using h.halts
    · intro u hu
      rcases Table.mem_transitions_append hu with rfl | hu
      · refine ⟨_, List.mem_append_right _ List.mem_cons_self, target, ?_,
          resolve_eq_anonymous_iff htarget⟩
        refine ⟨path, state, read, write, direction, rfl, hstate, hread, ?_, hwrite, hdirection⟩
        exact (resolve_eq_ok htarget).imp_left And.left
      · exact h.earlier _ hu

private theorem Refers.enact (h : Refers asked draft) (action : Action)
    (happlied : ∀ r, .refusal r ∉ (draft.enact action).2) :
    Refers (asked ++ [action]) (draft.enact action).1 := by
  cases action with
  | declare path => exact h.frame (fun _ => rfl) rfl rfl (Table.transitions_insert _ _)
  | apply path d fields =>
    rw [Draft.enact] at happlied ⊢
    cases happly : draft.apply path d () fields with
    | error r =>
      rw [happly] at happlied
      exact absurd List.mem_cons_self (happlied r)
    | ok result => exact h.applied (applies_of_apply happly)

theorem Refers.enactAll (h : Refers asked draft) (actions : List Action)
    (happlied : ∀ r, .refusal r ∉ (Draft.enactAll actions draft).2) :
    Refers (asked ++ actions) (Draft.enactAll actions draft).1 := by
  -- By induction on the actions, none of which is refused.
  induction actions generalizing asked draft with
  | nil =>
    rw [List.append_nil]
    exact h
  | cons action rest ih =>
    rw [enactAll_cons] at happlied ⊢
    have hnext := ih (h.enact action fun r hr => happlied r (List.mem_append_left _ hr))
      fun r hr => happlied r (List.mem_append_right _ hr)
    rwa [List.append_assoc] at hnext

end Draft

theorem refusal_not_mem_answers {source : List Char} {p : Program}
    (h : (compile source).program = some p) (r : Refusal) :
    .refusal r ∉ (scanSource source).answers := by
  intro hmem
  have herrors := Scan.program?_isSome.mp (Option.isSome_iff_exists.mpr ⟨p, h⟩)
  obtain ⟨d, hd, hcause⟩ := List.mem_map.mp (List.mem_filter.mp hmem).1
  apply Diagnostic.errorCount_eq_zero.mp herrors d (List.mem_append_left _ hd)
  rw [Diagnostic.severity, hcause]
  rfl

/--
A program refers to the anonymous state exactly where its source does so by a separator alone: in
the initial state if it was set so last, among the halting states if one was given so, and in the
target of each transition that was described so. The anonymous state is known only as the source of
transitions.
-/
theorem compile_references (source : List Char) (p : Program)
    (h : (compile source).program = some p) :
    let asked := fun role => (sourceActions source).flatMap (Action.references role)
    (p.initial = Name.anonymous ↔ (asked .initial).getLast? = some [Glyph.separator]) ∧
      (Name.anonymous ∈ p.halts ↔ [Glyph.separator] ∈ asked .halt) ∧
      (∀ t ∈ p.table.transitions, ∃ action ∈ sourceActions source, ∃ target,
        action.Describes t target ∧ (t.target = Name.anonymous ↔ target = [Glyph.separator])) ∧
      (Name.anonymous ∈ p.table.names → p.table.rules Name.anonymous ≠ []) := by
  intro asked
  have hrefers : Draft.Refers (sourceActions source)
      ((scanSource source).draft.recast fun _ => ()) := by
    have hrun := Draft.refers_empty.enactAll (sourceActions source)
    rw [enactAll_sourceActions] at hrun
    exact hrun (refusal_not_mem_answers h)
  have hanchored : (scanSource source).draft.table.Anchored := by
    rw [scanSource_eq, Scan.draft_close]
    exact anchored_readSource source
  obtain ⟨htable, -, hhalts, -, -⟩ := Scan.program?_eq_some h
  refine ⟨?_, ?_, ?_, ?_⟩
  · have hinitial := hrefers.initial
    rw [Draft.recast, Option.map_map] at hinitial
    change (scanSource source).draft.initial.map Prod.fst = _ ↔ _ at hinitial
    rwa [Scan.initial_of_program? h, Option.some.injEq] at hinitial
  · have hhalt : Name.anonymous ≠ Name.halt := by decide
    rw [hhalts, List.mem_cons, or_iff_right hhalt]
    exact hrefers.halts
  · rw [htable]
    exact hrefers.transitions
  · rw [htable]
    exact hanchored

/-- The anonymous state has a transition of its own, but no field is a separator alone. -/
theorem compile_references_plain :
    ∃ p, (compile ['$', '*', ':', '1', '>', 'a', ':', '1', ':', 'R', ';',
        '~', '.', 'a', ';', '!', 'a', ';']).program = some p ∧
      Name.anonymous ∈ p.table.names ∧ p.initial ≠ Name.anonymous ∧
      Name.anonymous ∉ p.halts := by
  let source := ['$', '*', ':', '1', '>', 'a', ':', '1', ':', 'R', ';',
    '~', '.', 'a', ';', '!', 'a', ';']
  let p : Program :=
    ⟨⟨[⟨[], [⟨[], .char '1', ['a'], .char '1', .right⟩]⟩, ⟨['a'], []⟩]⟩, ['a'],
      [Name.halt, ['a']], ['_'], Tape.ofList []⟩
  have hp : (compile source).program = some p := by decide
  obtain ⟨hinitial, hhalts, -, -⟩ := compile_references source p hp
  refine ⟨p, hp, List.mem_cons_self, ?_, ?_⟩
  · rw [ne_eq, hinitial]
    decide
  · rw [hhalts]
    decide

/-- Without any error a program begins in the anonymous state, halts there and goes there. -/
theorem compile_references_anonymous :
    ∃ p, (compile ['$', ':', '1', '>', 'a', ':', '1', ':', 'R', ';',
        '$', 'a', ':', '1', '>', '.', ':', '1', ':', 'R', ';', '~', '.', ';', '!', '.', ';']).program =
        some p ∧
      p.initial = Name.anonymous ∧ Name.anonymous ∈ p.halts ∧
      ∃ t ∈ p.table.transitions, t.target = Name.anonymous := by
  refine ⟨⟨⟨[⟨[], [⟨[], .char '1', ['a'], .char '1', .right⟩]⟩,
    ⟨['a'], [⟨['a'], .char '1', [], .char '1', .right⟩]⟩]⟩, [], [Name.halt, []], ['_'],
    Tape.ofList []⟩, ?_, ?_, ?_, ?_⟩
  · decide
  · rfl
  · decide
  · exact ⟨⟨['a'], .char '1', [], .char '1', .right⟩, by decide, rfl⟩

end TapeMachine
