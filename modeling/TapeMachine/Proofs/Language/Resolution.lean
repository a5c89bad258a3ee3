import TapeMachine.Proofs.Language.Anonymous
import TapeMachine.Proofs.Language.Soundness
/-!
# Relative and absolute references

A reference that begins with the separator gives the whole name of a state, which has to be known.
Any other reference gives a name inside the blocks around it. Where both denote one state, a
directive that holds the one has the effect of the directive that holds the other
(`Draft.apply_slot_congr`). No state is ever forgotten (`mem_names_readAll`), so a whole name that was
taken once is taken from then on.
-/
namespace TapeMachine

variable {μ : Type}

def Role.directive : Role → Directive
  | target => .transition
  | initial => .initial
  | halt => .halts

/-- The fields of a directive around the one that is a reference. -/
inductive Role.Slot : Role → (List Char → List (List Char)) → Prop
  | target (state read write direction : List Char) :
      Slot target fun field => [state, read, field, write, direction]
  | initial : Slot initial fun field => [field]
  | halt (before after : List (List Char)) : Slot halt fun field => before ++ field :: after

namespace Draft

variable {draft : Draft μ} {path : List Name} {role : Role}

/-- A field is taken as a reference to a state, which is known already if it is to halt. -/
def Takes (draft : Draft μ) (path : List Name) (role : Role) (field : List Char) (name : Name) :
    Prop :=
  draft.resolve path role field = .ok name ∧ (role = .halt → name ∈ draft.table.names)

theorem resolve_separator (draft : Draft μ) (path : List Name) (role : Role) (name : Name) :
    draft.resolve path role (Glyph.separator :: name) =
      if draft.table.contains name then .ok name
      else .error (.unknownState role (Glyph.separator :: name)) := rfl

theorem takes_separator_iff {name other : Name} :
    draft.Takes path role (Glyph.separator :: name) other ↔
      name ∈ draft.table.names ∧ other = name := by
  rw [Takes, resolve_separator]
  constructor
  · rintro ⟨hresolve, -⟩
    split at hresolve
    next hknown => exact ⟨Table.contains_iff.mp hknown, (Except.ok.inj hresolve).symm⟩
    next => cases hresolve
  · rintro ⟨hknown, rfl⟩
    exact ⟨if_pos (Table.contains_iff.mpr hknown), fun _ => hknown⟩

theorem Takes.local {field : List Char} {name : Name} (h : draft.Takes path role field name)
    (hrelative : field.head? ≠ some Glyph.separator) :
    Name.Local field ∧ name = Name.qualify path field := by
  rcases resolve_eq_ok h.1 with ⟨rfl, -⟩ | hlocal
  · exact absurd rfl hrelative
  · exact hlocal

private theorem haltNames_congr {field field' : List Char} (before after : List (List Char))
    (h : draft.resolve path .halt field = draft.resolve path .halt field') :
    haltNames path draft (before ++ field :: after) =
      haltNames path draft (before ++ field' :: after) := by
  induction before with
  | nil => rw [List.nil_append, List.nil_append, haltNames, haltNames, h]
  | cons first before ih => rw [List.cons_append, List.cons_append, haltNames, haltNames, ih]

private theorem resolve_of_haltNames {before after : List (List Char)} {field : List Char}
    {names : List Name} (h : haltNames path draft (before ++ field :: after) = .ok names) :
    ∃ name, draft.resolve path .halt field = .ok name := by
  induction before generalizing names with
  | nil =>
    obtain ⟨name, hname, -⟩ := ok_of_bind h
    exact ⟨name, hname⟩
  | cons first before ih =>
    obtain ⟨name, -, hrest⟩ := ok_of_bind h
    split at hrest
    next =>
      obtain ⟨names, hnames, -⟩ := ok_of_map hrest
      exact ih hnames
    next => cases hrest

/-- A directive does not look at a reference, but at the state that it refers to. -/
theorem apply_slot_congr {fill : List Char → List (List Char)} (hslot : role.Slot fill) (start : μ)
    {field field' : List Char}
    (h : draft.resolve path role field = draft.resolve path role field') :
    draft.apply path role.directive start (fill field) =
      draft.apply path role.directive start (fill field') := by
  cases hslot with
  | target state read write direction =>
    change draft.addTransition path _ = draft.addTransition path _
    rw [addTransition, addTransition, transition, transition, h]
  | initial =>
    change draft.setInitial path start [field].flatten = draft.setInitial path start [field'].flatten
    rw [List.flatten_singleton, List.flatten_singleton, setInitial, setInitial, h]
  | halt before after =>
    change draft.addHalts path _ = draft.addHalts path _
    rw [addHalts, addHalts, haltNames_congr before after h]

theorem apply_slot_error {fill : List Char → List (List Char)} (hslot : role.Slot fill) (start : μ)
    {field : List Char} {refusal : Refusal}
    (h : draft.resolve path role field = .error refusal) :
    ∃ r, draft.apply path role.directive start (fill field) = .error r := by
  cases happly : draft.apply path role.directive start (fill field) with
  | error r => exact ⟨r, rfl⟩
  | ok result =>
    obtain ⟨name, hname⟩ : ∃ name, draft.resolve path role field = .ok name := by
      cases hslot with
      | target state read write direction =>
        obtain ⟨t, ht, -⟩ := ok_of_map happly
        obtain ⟨_, _, _, _, _, hfields, -, -, htarget, -⟩ := transition_eq_ok ht
        simp only [List.cons.injEq] at hfields
        obtain ⟨-, -, rfl, -⟩ := hfields
        exact ⟨_, htarget⟩
      | initial =>
        obtain ⟨name, hname, -⟩ := ok_of_map happly
        rw [List.flatten_singleton] at hname
        exact ⟨name, hname⟩
      | halt before after =>
        obtain ⟨names, hnames, -⟩ := ok_of_map happly
        exact resolve_of_haltNames hnames
    rw [hname] at h
    cases h

end Draft

theorem Scan.mem_names_readAll {s : Scan μ} (h : s.Orderly) {name : Name}
    (hname : name ∈ s.draft.table.names) (source : List (μ × Char)) :
    name ∈ (s.readAll source).draft.table.names :=
  readAll_induction (P := fun s => name ∈ s.draft.table.names)
    (fun _ hr hmem => hr.grows.mem_names hmem) h hname source

theorem Role.accepts_of_isState (role : Role) {c : Char} (hc : Glyph.isState c = true) :
    role.directive.accepts c = true := by
  cases role with
  | target =>
    change Glyph.isTransition c = true
    rw [Glyph.isState, Bool.or_eq_true] at hc
    rw [Glyph.isTransition, Glyph.isCell]
    rcases hc with hc | hc
    · simp [hc]
    · simp [hc]
  | initial => exact hc
  | halt => exact hc

/-- Where a scan stands, a directive takes a field as a reference to a state. -/
def Scan.Takes (s : Scan μ) (role : Role) (field : List Char) (name : Name) : Prop :=
  s.draft.Takes s.scopes.path role field name

/-- A whole name that is taken somewhere in a source is taken with one meaning everywhere after it. -/
theorem takes_readSource_append {front : List Char} {role role' : Role} {name other : Name}
    (h : (readSource front).Takes role (Glyph.separator :: name) other) (back : List Char) :
    (readSource (front ++ back)).Takes role' (Glyph.separator :: name) other := by
  obtain ⟨hknown, hname⟩ := Draft.takes_separator_iff.mp h
  refine Draft.takes_separator_iff.mpr ⟨?_, hname⟩
  rw [readSource_append]
  exact Scan.mem_names_readAll (orderly_readSource front) hknown _

/--
A state that a reference inside blocks is taken for has a whole name. With the separator in front that
is taken exactly where the state is known, in every role, and it may be written there. It then denotes
the same state, so that a directive with the one reference has the effect of the directive with the
other; otherwise the directive is refused. What is once taken for a state in this way is so at every
later place, inside whatever blocks, for whatever comes between.
-/
theorem resolve_absolute (front : List Char) {role : Role} {field : List Char} {name : Name}
    (hrelative : field.head? ≠ some Glyph.separator)
    (htaken : (readSource front).Takes role field name) :
    let s := readSource front
    let path := s.scopes.path
    let whole := Glyph.separator :: Name.qualify path field
    name = Name.qualify path field ∧
      (∀ role other, s.Takes role whole other ↔ name ∈ s.draft.table.names ∧ other = name) ∧
      (∀ role : Role, ∀ c ∈ whole, role.directive.accepts c = true) ∧
      (∀ (role : Role) (fill : List Char → List (List Char)) (start : Mark), role.Slot fill →
        (name ∈ s.draft.table.names →
          s.draft.apply path role.directive start (fill whole) =
            s.draft.apply path role.directive start (fill field)) ∧
        (name ∉ s.draft.table.names →
          ∃ r, s.draft.apply path role.directive start (fill whole) = .error r)) ∧
      ∀ (before after : List Char) (role role' : Role) (other : Name),
        (readSource before).Takes role whole other →
          other = name ∧ (readSource (before ++ after)).Takes role' whole name := by
  intro s path whole
  obtain ⟨hlocal, hname⟩ := htaken.local hrelative
  refine ⟨hname, ?_, ?_, ?_, ?_⟩
  · intro role other
    rw [hname]
    exact Draft.takes_separator_iff
  · intro role c hc
    have hletters : Name.isStateName whole = true :=
      (hlocal.qualify (sound_readSource front).named.path).letters
    exact role.accepts_of_isState (List.all_eq_true.mp hletters c hc)
  · intro role fill start hslot
    rw [hname]
    constructor
    · intro hknown
      have hsame : s.draft.resolve path role whole = s.draft.resolve path role field := by
        rw [Draft.resolve_local path role s.draft hlocal, Draft.resolve_separator,
          if_pos (Table.contains_iff.mpr hknown)]
      exact Draft.apply_slot_congr hslot start hsame
    · intro hunknown
      have hcontains : ¬ s.draft.table.contains (Name.qualify path field) = true :=
        fun hknown => hunknown (Table.contains_iff.mp hknown)
      have hrefused : s.draft.resolve path role whole = .error (.unknownState role whole) := by
        rw [Draft.resolve_separator, if_neg hcontains]
      exact Draft.apply_slot_error hslot start hrefused
  · intro before after role role' other h
    obtain ⟨-, hother⟩ := Draft.takes_separator_iff.mp h
    obtain rfl : other = name := hother.trans hname.symm
    exact ⟨rfl, takes_readSource_append h after⟩

/-- In a block of its own name and, behind a fault, inside another one. -/
theorem resolve_absolute_later :
    let front := [':', 'a', '\x7b', '*', 'q', ';']
    let back := ['$', '#', '\x7d', ':', 'b', '\x7b']
    let whole := ['.', 'a', '.', 'q']
    (readSource front).Takes .target ['q'] ['a', '.', 'q'] ∧
      (readSource front).Takes .halt whole ['a', '.', 'q'] ∧
      (readSource (front ++ back)).Takes .initial whole ['a', '.', 'q'] := by
  intro front back whole
  have htaken : (readSource front).Takes .target ['q'] ['a', '.', 'q'] :=
    ⟨rfl, fun h => Role.noConfusion h⟩
  have hknown : ['a', '.', 'q'] ∈ (readSource front).draft.table.names := by decide
  obtain ⟨-, htakes, -, -, hlater⟩ := resolve_absolute front (by decide) htaken
  have hwhole : (readSource front).Takes .halt whole ['a', '.', 'q'] :=
    (htakes .halt _).mpr ⟨hknown, rfl⟩
  exact ⟨htaken, hwhole, (hlater front back .halt .initial _ hwhole).2⟩

end TapeMachine
