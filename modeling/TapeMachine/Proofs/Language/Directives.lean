import TapeMachine.Language.Draft
import TapeMachine.Proofs.Language.Names
import TapeMachine.Proofs.Table.Consistency
/-!
# Directives that are applied

A directive that is applied has one of the effects listed in `Draft.Applies`, each with the checks
that its fields have passed.
-/
namespace TapeMachine

namespace Draft

variable {μ : Type}

theorem ok_of_bind {ε α β : Type} {first : Except ε α} {next : α → Except ε β} {b : β}
    (h : first.bind next = .ok b) : ∃ a, first = .ok a ∧ next a = .ok b := by
  cases first with
  | error e => cases h
  | ok a => exact ⟨a, rfl, h⟩

theorem ok_of_map {ε α β : Type} {found : Except ε α} {f : α → β} {b : β}
    (h : found.map f = .ok b) : ∃ a, found = .ok a ∧ f a = b := by
  cases found with
  | error e => cases h
  | ok a => exact ⟨a, rfl, Except.ok.inj h⟩

theorem symbols_eq_ok {fields : List (List Char)} {found : List Char}
    (h : symbols fields = .ok found) : fields = found.map ([·]) := by
  induction fields generalizing found with
  | nil =>
    cases h
    rfl
  | cons field rest ih =>
    match field, h with
    | [], h => cases h
    | [c], h =>
      obtain ⟨others, hothers, hfound⟩ := ok_of_map h
      rw [← hfound, List.map_cons, ← ih hothers]
    | _ :: _ :: _, h => cases h

/-- A field refers to a known state by its whole name, or to one inside the blocks around it. -/
theorem resolve_eq_ok {path : List Name} {role : Role} {field : List Char} {draft : Draft μ}
    {name : Name} (h : draft.resolve path role field = .ok name) :
    (field = Glyph.separator :: name ∧ name ∈ draft.table.names) ∨
      (Name.Local field ∧ name = Name.qualify path field) := by
  cases field with
  | nil => cases h
  | cons c rest =>
    simp only [resolve] at h
    split at h
    next hc =>
      split at h
      next hknown =>
        cases h
        exact .inl ⟨by rw [hc], Table.contains_iff.mp hknown⟩
      next => cases h
    next hc =>
      split at h
      next hletters =>
        cases h
        exact .inr ⟨⟨List.cons_ne_nil c rest, fun hhead => hc (Option.some.inj hhead), hletters⟩, rfl⟩
      next => cases h

theorem resolve_local (path : List Name) (role : Role) (draft : Draft μ) {field : List Char}
    (h : Name.Local field) : draft.resolve path role field = .ok (Name.qualify path field) := by
  cases field with
  | nil => exact absurd rfl h.named
  | cons c rest =>
    have hc : c ≠ Glyph.separator := fun hc => h.relative (by rw [hc]; rfl)
    rw [resolve, if_neg hc, if_pos h.letters]

/-- A transition leaves the state of the innermost block, or a state inside it. -/
theorem source_eq_ok {path : List Name} {field : List Char} {name : Name}
    (h : source path field = .ok name) :
    ((field = [] ∨ field = [Glyph.wildcard]) ∧ name = Name.qualify path Name.anonymous) ∨
      (Name.Local field ∧ name = Name.qualify path field) := by
  rw [source] at h
  split at h
  next hblank =>
    cases h
    exact .inl ⟨hblank, rfl⟩
  next hblank =>
    split at h
    next => cases h
    next hrefused =>
      cases h
      have hnonempty : field ≠ [] := fun hf => hblank (.inl hf)
      have hrelative : field.head? ≠ some Glyph.separator := fun hf => hrefused (.inl hf)
      have hletters : Name.isStateName field = true := by
        rw [← Bool.not_eq_false]
        exact fun hf => hrefused (.inr hf)
      exact .inr ⟨⟨hnonempty, hrelative, hletters⟩, rfl⟩

theorem orRefuse_eq_ok {α : Type} {refusal : Refusal} {found : Option α} {a : α}
    (h : orRefuse refusal found = .ok a) : found = some a := by
  cases found with
  | none => cases h
  | some b =>
    cases h
    rfl

theorem transition_eq_ok {path : List Name} {draft : Draft μ} {fields : List (List Char)}
    {t : Transition} (h : draft.transition path fields = .ok t) :
    ∃ state read target write direction, fields = [state, read, target, write, direction] ∧
      source path state = .ok t.state ∧ symbol? read = some t.read ∧
      draft.resolve path .target target = .ok t.target ∧ symbol? write = some t.write ∧
      direction? direction = some t.direction := by
  match fields, h with
  | [state, read, target, write, direction], h =>
    obtain ⟨_, hstate, h⟩ := ok_of_bind h
    obtain ⟨_, hread, h⟩ := ok_of_bind h
    obtain ⟨_, htarget, h⟩ := ok_of_bind h
    obtain ⟨_, hwrite, h⟩ := ok_of_bind h
    obtain ⟨_, hdirection, h⟩ := ok_of_bind h
    cases h
    exact ⟨state, read, target, write, direction, rfl, hstate, orRefuse_eq_ok hread, htarget,
      orRefuse_eq_ok hwrite, orRefuse_eq_ok hdirection⟩

theorem haltNames_eq_ok {path : List Name} {draft : Draft μ} {fields : List (List Char)}
    {names : List Name} (h : draft.haltNames path fields = .ok names) :
    ∀ name ∈ names, name ∈ draft.table.names ∧
      ∃ field ∈ fields, draft.resolve path .halt field = .ok name := by
  induction fields generalizing names with
  | nil =>
    cases h
    intro name hname
    cases hname
  | cons field rest ih =>
    obtain ⟨first, hfirst, h⟩ := ok_of_bind h
    split at h
    next hknown =>
      obtain ⟨others, hothers, hnames⟩ := ok_of_map h
      intro name hname
      rw [← hnames] at hname
      rcases List.mem_cons.mp hname with rfl | hname
      · exact ⟨Table.contains_iff.mp hknown, field, List.mem_cons_self, hfirst⟩
      · obtain ⟨hmem, f, hf, hresolve⟩ := ih hothers name hname
        exact ⟨hmem, f, List.mem_cons_of_mem field hf, hresolve⟩
    next => cases h

theorem declareAll_fst (path : List Name) (fields : List (List Char)) (table : Table) :
    (declareAll path fields table).1 = table.insertAll (fields.map (Name.qualify path)) := by
  induction fields generalizing table with
  | nil => rfl
  | cons field rest ih => exact ih (table.insert (Name.qualify path field))

/-- What a directive that is applied does, and what was checked before. -/
inductive Applies (path : List Name) (start : μ) (fields : List (List Char)) (draft : Draft μ) :
    Directive → Draft μ → Prop
  | tape (hcontent : fields.flatten ≠ []) (hallowed : ∀ c ∈ fields.flatten, draft.allows c = true) :
      Applies path start fields draft .tape { draft with tape := some fields.flatten }
  | alphabet (found : List Char) (hfields : fields = found.map ([·])) :
      Applies path start fields draft .alphabet
        { draft with alphabet := Roster.enterAll [] (found ++ [Glyph.blank]) }
  | transition (t : Transition) (ht : draft.transition path fields = .ok t) :
      Applies path start fields draft .transition { draft with table := draft.table.append t }
  | initial (name : Name) (hname : draft.resolve path .initial fields.flatten = .ok name) :
      Applies path start fields draft .initial { draft with initial := some (name, start) }
  | halts (names : List Name) (hnames : draft.haltNames path fields = .ok names) :
      Applies path start fields draft .halts
        { draft with halts := Roster.enterAll draft.halts (names.filter (· ≠ Name.halt)) }
  | states (hfields : ∀ field ∈ fields, field ≠ [] ∧ field.head? ≠ some Glyph.separator) :
      Applies path start fields draft .states
        { draft with table := draft.table.insertAll (fields.map (Name.qualify path)) }

private theorem applies_setTape {path : List Name} {start : μ} {fields : List (List Char)}
    {draft next : Draft μ} {notices : List Notice}
    (h : draft.setTape fields.flatten = .ok (next, notices)) :
    Applies path start fields draft .tape next := by
  rw [setTape] at h
  split at h
  next => cases h
  next hcontent =>
    split at h
    next => cases h
    next hfind =>
      cases h
      refine .tape hcontent ?_
      intro c hc
      have hnot := List.find?_eq_none.mp hfind c hc
      simpa using hnot

private theorem applies_addStates {path : List Name} {start : μ} {fields : List (List Char)}
    {draft next : Draft μ} {notices : List Notice}
    (h : draft.addStates path fields = .ok (next, notices)) :
    Applies path start fields draft .states next := by
  rw [addStates] at h
  split at h
  next => cases h
  next hfind =>
    cases h
    rw [declareAll_fst]
    refine .states ?_
    intro field hfield
    have hnot := List.find?_eq_none.mp hfind field hfield
    simpa [not_or] using hnot

theorem applies_of_apply {path : List Name} {d : Directive} {start : μ}
    {fields : List (List Char)} {draft next : Draft μ} {notices : List Notice}
    (h : draft.apply path d start fields = .ok (next, notices)) :
    Applies path start fields draft d next := by
  cases d with
  | tape => exact applies_setTape h
  | alphabet =>
    obtain ⟨found, hfound, hnext⟩ := ok_of_map h
    cases hnext
    exact .alphabet found (symbols_eq_ok hfound)
  | transition =>
    obtain ⟨t, ht, hnext⟩ := ok_of_map h
    cases hnext
    exact .transition t ht
  | initial =>
    obtain ⟨name, hname, hnext⟩ := ok_of_map h
    cases hnext
    exact .initial name hname
  | halts =>
    obtain ⟨names, hnames, hnext⟩ := ok_of_map h
    cases hnext
    exact .halts names hnames
  | states => exact applies_addStates h

end Draft

end TapeMachine
