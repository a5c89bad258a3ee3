import TapeMachine.Proofs.Language.Directives
import TapeMachine.Proofs.Language.Grammar
/-!
# Directives outside of their blocks

A directive that is applied inside blocks could as well stand outside of them, with the names of the
blocks in front of the names that it gives. It is then applied with the same effect.
-/
namespace TapeMachine

namespace Name

/-- A name with the names of the blocks of `path` in front of it. -/
def under (path : List Name) (name : Name) : Name :=
  path.foldr (fun part rest => part ++ Glyph.separator :: rest) name

theorem join_cons (first : Name) {parts : List Name} (h : parts ≠ []) :
    join (first :: parts) = first ++ Glyph.separator :: join parts := by
  cases parts with
  | nil => exact absurd rfl h
  | cons second rest => exact join_cons_cons first second rest

theorem under_eq_qualify (path : List Name) {name : Name} (h : name ≠ anonymous) :
    under path name = qualify path name := by
  rw [qualify, if_neg h]
  induction path with
  | nil => exact (join_singleton name).symm
  | cons part path ih => simpa [under, join_cons] using ih

theorem mem_under {path : List Name} {name : Name} {c : Char} (h : c ∈ under path name) :
    (∃ part ∈ path, c ∈ part) ∨ c = Glyph.separator ∨ c ∈ name := by
  induction path with
  | nil => exact .inr (.inr h)
  | cons part path ih =>
    simp only [under, List.foldr_cons, List.mem_append, List.mem_cons] at h ih
    rcases h with h | rfl | h
    · exact .inl ⟨part, List.mem_cons_self, h⟩
    · exact .inr (.inl rfl)
    · rcases ih h with ⟨part', hpart, hc⟩ | h
      · exact .inl ⟨part', List.mem_cons_of_mem part hpart, hc⟩
      · exact .inr h

theorem local_join {path : List Name} (hne : path ≠ []) (hpath : ∀ part ∈ path, part.Part) :
    Local (join path) := by
  cases path with
  | nil => exact absurd rfl hne
  | cons first rest =>
    apply (hpath first List.mem_cons_self).local_join
    intro part hpart
    exact isStateName_of_part (hpath part (List.mem_cons_of_mem first hpart))

end Name

namespace Directive

/-- A reference to a state inside the blocks of `path` as it stands outside; a whole name stays. -/
def rootedName (path : List Name) (field : List Char) : List Char :=
  if field.head? = some Glyph.separator then field else Name.under path field

theorem rootedName_of_local (path : List Name) {field : List Char} (h : Name.Local field) :
    rootedName path field = Name.qualify path field := by
  rw [rootedName, if_neg h.relative, Name.under_eq_qualify path h.named]

/-- The source of a transition outside of its blocks; without a name it is the innermost block. -/
def rootedSource (path : List Name) (field : List Char) : List Char :=
  if path ≠ [] ∧ (field = [] ∨ field = [Glyph.wildcard]) then Name.join path
  else rootedName path field

/-- The fields of a directive inside the blocks of `path` as they stand outside. -/
def rooted (path : List Name) : Directive → List (List Char) → List (List Char)
  | transition, [state, read, target, write, direction] =>
    [rootedSource path state, read, rootedName path target, write, direction]
  | initial, fields | halts, fields | states, fields => fields.map (rootedName path)
  | _, fields => fields

/-- Fields that a directive may be written with. -/
structure Fields (d : Directive) (fields : List (List Char)) : Prop where
  nonempty : fields ≠ []
  letters : ∀ field ∈ fields, ∀ c ∈ field, d.accepts c = true
  single : d.hasFields = false → ∃ field, fields = [field]

end Directive

namespace Draft

variable {μ : Type} {path : List Name} {draft : Draft μ}

theorem resolve_of_local (draft : Draft μ) (role : Role) {name : Name} (h : name.Local) :
    draft.resolve [] role name = .ok name := by
  rw [resolve_local [] role draft h, Name.qualify_nil]

theorem source_of_local {name : Name} (h : name.Local) : source [] name = .ok name := by
  have hwild : name ≠ [Glyph.wildcard] := by
    rintro rfl
    exact absurd h.letters (by decide)
  have hnamed : name ≠ [] := h.named
  simp [source, hnamed, hwild, h.relative, h.letters, Name.qualify_nil]

theorem resolve_rooted (hpath : ∀ part ∈ path, part.Part) {role : Role} {field : List Char}
    {name : Name} (h : draft.resolve path role field = .ok name) :
    draft.resolve [] role (Directive.rootedName path field) = .ok name := by
  rcases resolve_eq_ok h with ⟨rfl, hknown⟩ | ⟨hlocal, rfl⟩
  · simp [Directive.rootedName, resolve, Table.contains_iff.mpr hknown]
  · rw [Directive.rootedName_of_local path hlocal]
    exact resolve_of_local draft role (hlocal.qualify hpath)

theorem source_rooted (hpath : ∀ part ∈ path, part.Part) {field : List Char} {name : Name}
    (h : source path field = .ok name) :
    source [] (Directive.rootedSource path field) = .ok name := by
  rcases source_eq_ok h with ⟨hblank, rfl⟩ | ⟨hlocal, rfl⟩
  -- Outside of all blocks the anonymous state is still written without a name.
  · by_cases hne : path = []
    · subst hne
      rcases hblank with rfl | rfl <;> rfl
    · rw [Directive.rootedSource, if_pos ⟨hne, hblank⟩, Name.qualify, if_pos rfl]
      exact source_of_local (Name.local_join hne hpath)
  · have hnamed : field ≠ [] := hlocal.named
    have hwild : field ≠ [Glyph.wildcard] := by
      rintro rfl
      exact absurd hlocal.letters (by decide)
    rw [Directive.rootedSource, if_neg (by simp [hnamed, hwild]),
      Directive.rootedName_of_local path hlocal]
    exact source_of_local (hlocal.qualify hpath)

theorem transition_rooted (hpath : ∀ part ∈ path, part.Part) {fields : List (List Char)}
    {t : Transition} (h : draft.transition path fields = .ok t) :
    draft.transition [] (Directive.rooted path .transition fields) = .ok t := by
  obtain ⟨state, read, target, write, direction, rfl, hstate, hread, htarget, hwrite, hdirection⟩ :=
    transition_eq_ok h
  simp only [Directive.rooted, transition, source_rooted hpath hstate, hread,
    resolve_rooted hpath htarget, hwrite, hdirection]
  rfl

theorem haltNames_rooted (hpath : ∀ part ∈ path, part.Part) {fields : List (List Char)}
    {names : List Name} (h : haltNames path draft fields = .ok names) :
    haltNames [] draft (fields.map (Directive.rootedName path)) = .ok names := by
  induction fields generalizing names with
  | nil => exact h
  | cons field rest ih =>
    cases hfirst : draft.resolve path .halt field with
    | error r => simp [haltNames, hfirst, bind, Except.bind] at h
    | ok name =>
      cases hrest : haltNames path draft rest with
      | error r =>
        simp only [haltNames, hfirst, hrest, bind, Except.bind, Except.map] at h
        split at h <;> cases h
      | ok others =>
        simpa [haltNames, hfirst, hrest, ih hrest, resolve_rooted hpath hfirst] using h

theorem declareAll_rooted {fields : List (List Char)} (hfields : ∀ field ∈ fields, Name.Local field)
    (table : Table) :
    declareAll [] (fields.map (Directive.rootedName path)) table = declareAll path fields table := by
  induction fields generalizing table with
  | nil => rfl
  | cons field rest ih =>
    have hname : Name.qualify [] (Directive.rootedName path field) = Name.qualify path field := by
      rw [Name.qualify_nil, Directive.rootedName_of_local path (hfields field List.mem_cons_self)]
    simp only [List.map_cons, declareAll, hname,
      ih fun field hfield => hfields field (List.mem_cons_of_mem _ hfield)]

private theorem addStates_rooted (hpath : ∀ part ∈ path, part.Part) {fields : List (List Char)}
    (hletters : ∀ field ∈ fields, Name.isStateName field = true) {result : Draft μ × List Notice}
    (h : draft.addStates path fields = .ok result) :
    draft.addStates [] (fields.map (Directive.rootedName path)) = .ok result := by
  rw [addStates] at h
  split at h
  next => cases h
  next hfind =>
    have hlocal : ∀ field ∈ fields, Name.Local field := by
      intro field hfield
      have hnot := List.find?_eq_none.mp hfind field hfield
      simp only [Bool.or_eq_true, List.isEmpty_iff, beq_iff_eq, not_or] at hnot
      exact ⟨hnot.1, hnot.2, hletters field hfield⟩
    have hrooted : (fields.map (Directive.rootedName path)).find?
        (fun field => field.isEmpty || field.head? == some Glyph.separator) = none := by
      rw [List.find?_eq_none]
      intro name hname
      obtain ⟨field, hfield, rfl⟩ := List.mem_map.mp hname
      have hqualified := (hlocal field hfield).qualify hpath
      rw [Directive.rootedName_of_local path (hlocal field hfield)]
      simp [hqualified.relative, List.isEmpty_eq_false_iff.mpr hqualified.named]
    rw [addStates, hrooted, declareAll_rooted hlocal]
    exact h

/-- A directive that is applied inside blocks has the same effect outside of them. -/
theorem apply_rooted (hpath : ∀ part ∈ path, part.Part) {d : Directive}
    {fields : List (List Char)} (hfields : d.Fields fields) {start : μ}
    {result : Draft μ × List Notice} (h : draft.apply path d start fields = .ok result) :
    draft.apply [] d start (d.rooted path fields) = .ok result := by
  cases d with
  | tape => exact h
  | alphabet => exact h
  | transition =>
    simp only [apply, addTransition] at h ⊢
    cases ht : draft.transition path fields with
    | error r => rw [ht] at h; cases h
    | ok t => rwa [transition_rooted hpath ht, ← ht]
  | initial =>
    obtain ⟨field, rfl⟩ := hfields.single rfl
    simp only [apply, setInitial, Directive.rooted, List.map_cons, List.map_nil,
      List.flatten_singleton] at h ⊢
    cases hname : draft.resolve path .initial field with
    | error r => rw [hname] at h; cases h
    | ok name => rwa [resolve_rooted hpath hname, ← hname]
  | halts =>
    simp only [apply, addHalts, Directive.rooted] at h ⊢
    cases hnames : draft.haltNames path fields with
    | error r => rw [hnames] at h; cases h
    | ok names => rwa [haltNames_rooted hpath hnames, ← hnames]
  | states =>
    refine addStates_rooted hpath ?_ h
    intro field hfield
    exact List.all_eq_true.mpr (hfields.letters field hfield)

theorem enact_declare (draft : Draft Unit) (hne : path ≠ []) (hpath : ∀ part ∈ path, part.Part) :
    draft.enact (.apply [] .states [Name.join path]) = draft.enact (.declare path) := by
  have hlocal := Name.local_join hne hpath
  have hnamed : Name.join path ≠ [] := hlocal.named
  simp [enact, apply, addStates, hnamed, hlocal.relative, declareAll, Name.qualify_nil]

end Draft

end TapeMachine
