import TapeMachine.Proofs.Engine.Entered
import TapeMachine.Proofs.Language.Anonymous
import TapeMachine.Proofs.Language.Flattening
/-!
# Transitions that are printed

A transition that is printed can be read again. The states of a program and its transitions make a
source whose table has the same states with the same transitions (`scanSource_printed`); the
anonymous state cannot be written as a target, so no transition may lead there.
-/
namespace TapeMachine

def Program.printed (p : Program) : List Char :=
  '*' :: (List.intercalate [':'] p.stateNames ++
    ';' :: p.table.transitions.flatMap fun t => '$' :: (t.text ++ [';']))

theorem Name.Proper.letters {name : Name} (h : name.Proper) : name.isStateName = true := by
  rcases h with rfl | h
  · rfl
  · exact h.letters

theorem Symbol.Proper.accepts {symbol : Symbol} (h : symbol.Proper) :
    Directive.accepts .transition symbol.toChar = true := by
  cases symbol with
  | any => decide
  | char c =>
    have hcell : Glyph.isCell c = true := h
    simp [toChar, Directive.accepts, Glyph.isTransition, hcell]

theorem Direction.accepts_letter (d : Direction) :
    Directive.accepts .transition d.letter = true := by
  cases d <;> decide

namespace Draft

theorem source_of_proper {name : Name} (h : name.Proper) : source [] name = .ok name := by
  rcases h with rfl | h
  · rfl
  · exact source_of_local h

theorem symbol?_toChar {symbol : Symbol} (h : symbol.Proper) :
    symbol? [symbol.toChar] = some symbol := by
  cases symbol with
  | any => decide
  | char c =>
    have hcell : Glyph.isCell c = true := h
    have hwild : c ≠ Glyph.wildcard := by
      rintro rfl
      exact Bool.noConfusion (hcell.symm.trans Glyph.isCell_wildcard)
    simp [symbol?, Symbol.toChar, Symbol.ofChar, hcell, hwild]

theorem direction?_letter (d : Direction) : direction? [d.letter] = some d :=
  Direction.ofLetter?_eq_some_iff.mpr rfl

end Draft

namespace Transition

def fields (t : Transition) : List (List Char) :=
  [t.state, [t.read.toChar], t.target, [t.write.toChar], [t.direction.letter]]

/-- A transition that can be read once it is printed. -/
structure Readable (t : Transition) : Prop where
  state : t.state.Proper
  read : t.read.Proper
  target : t.target.Local
  write : t.write.Proper

variable {t : Transition}

theorem Readable.transition (h : t.Readable) (draft : Draft Unit) :
    draft.transition [] t.fields = .ok t := by
  simp only [Draft.transition, fields, Draft.source_of_proper h.state,
    Draft.symbol?_toChar h.read, Draft.resolve_of_local draft .target h.target,
    Draft.symbol?_toChar h.write, Draft.direction?_letter]
  rfl

theorem Readable.body (h : t.Readable) :
    Directive.Body .transition t.fields (t.text.filter (!Scan.isLayout ·)) := by
  have hname : ∀ {name : Name}, name.isStateName = true →
      ∀ c ∈ name, Directive.accepts .transition c = true :=
    fun hletters c hc => Directive.accepts_isState (by decide) (List.all_eq_true.mp hletters c hc)
  have hdirection : Directive.Body .transition [[], [t.direction.letter]]
      [':', t.direction.letter] :=
    .separator (by decide) (.letter t.direction.accepts_letter .empty)
  have hwrite : Directive.Body .transition [[], [t.write.toChar], [t.direction.letter]]
      [':', t.write.toChar, ':', t.direction.letter] :=
    .separator (by decide) (.letter h.write.accepts hdirection)
  have htarget := hwrite.field_append (hname h.target.letters)
  have harrow := Directive.Body.ignored (c := '-') (by decide)
    (.separator (c := '>') (by decide) htarget)
  have hread := Directive.Body.separator (c := ':') (by decide) (.letter h.read.accepts harrow)
  have hstate := hread.field_append (hname h.state.letters)
  have hblank : Scan.isLayout ' ' = true := rfl
  have hsame : t.text.filter (!Scan.isLayout ·) =
      (t.state ++ ':' :: t.read.toChar :: '-' :: '>' ::
        (t.target ++ [':', t.write.toChar, ':', t.direction.letter])).filter
          (!Scan.isLayout ·) := by
    simp [text, List.filter_cons, hblank]
  rw [hsame, hstate.filter_layout]
  exact hstate

end Transition

namespace Description

def ofTransitions (ts : List Transition) : Description :=
  ts.foldr (fun t rest => directive .transition t.fields rest) empty

theorem derives_ofTransitions {ts : List Transition} (h : ∀ t ∈ ts, t.Readable) :
    (ofTransitions ts).Derives
      (Scope.block.bare (ts.flatMap fun t => '$' :: (t.text ++ [';']))) := by
  induction ts with
  | nil => exact .empty
  | cons t ts ih =>
    rw [List.forall_mem_cons] at h
    have hbody := h.1.body
    have hopens : ∀ text, Scope.block.bare ('$' :: text) =
        '$' :: (Scope.directive .transition).bare text :=
      Scope.bare_cons rfl Scope.noConfusion Scope.noConfusion
    have hdirective := Derives.directive hbody (ih h.2)
    rw [← hbody.bare] at hdirective
    rw [List.flatMap_cons, List.cons_append, List.append_assoc, hopens]
    exact hdirective

theorem derives_printed {p : Program} (hnames : ∀ name ∈ p.stateNames, name.Local)
    (hsome : p.stateNames ≠ []) (hts : ∀ t ∈ p.table.transitions, t.Readable) :
    (directive .states p.stateNames (ofTransitions p.table.transitions)).Derives
      (bareSource p.printed) := by
  have hfields : Directive.Fields .states p.stateNames := by
    refine ⟨hsome, ?_, fun hnone => nomatch hnone⟩
    intro name hname
    exact List.all_eq_true.mp (hnames name hname).letters
  have hbody := hfields.body
  have hopens : ∀ text, Scope.block.bare ('*' :: text) =
      '*' :: (Scope.directive .states).bare text :=
    Scope.bare_cons rfl Scope.noConfusion Scope.noConfusion
  have hdirective := Derives.directive hbody (derives_ofTransitions hts)
  rw [← hbody.filter_layout, ← Directive.Body.bare (by rw [hbody.filter_layout]; exact hbody)]
    at hdirective
  rw [bareSource, Program.printed, hopens]
  exact hdirective

end Description

namespace Draft

theorem declareAll_of_new {names : List Name} (hnodup : names.Nodup) {table : Table}
    (hnew : ∀ name ∈ names, name ∉ table.names) :
    declareAll [] names table = (table.insertAll names, []) := by
  induction names generalizing table with
  | nil => rfl
  | cons name names ih =>
    rw [List.nodup_cons] at hnodup
    rw [List.forall_mem_cons] at hnew
    have hunknown : table.contains name = false := by
      rw [← Bool.not_eq_true, Table.contains_iff]
      exact hnew.1
    have hrest : ∀ x ∈ names, x ∉ (table.insert name).names := by
      intro x hx hknown
      rcases Table.mem_names_insert.mp hknown with hknown | rfl
      · exact hnew.2 x hx hknown
      · exact hnodup.1 hx
    simp [declareAll, declare, Name.qualify_nil, hunknown, ih hnodup.2 hrest, Table.insertAll]

theorem enact_states {names : List Name} (hnodup : names.Nodup)
    (hnames : ∀ name ∈ names, name.Local) {draft : Draft Unit}
    (hnew : ∀ name ∈ names, name ∉ draft.table.names) :
    draft.enact (.apply [] .states names) =
      ({ draft with table := draft.table.insertAll names }, []) := by
  have hfind : names.find? (fun field => field.isEmpty || field.head? == some Glyph.separator) =
      none := by
    rw [List.find?_eq_none]
    intro name hname
    have hlocal := hnames name hname
    simp [hlocal.relative, List.isEmpty_eq_false_iff.mpr hlocal.named]
  simp [enact, apply, addStates, hfind, declareAll_of_new hnodup hnew]

theorem enact_transition {t : Transition} (h : t.Readable) {draft : Draft Unit}
    (hstate : t.state = Name.anonymous ∨ t.state ∈ draft.table.names)
    (htarget : t.target ∈ draft.table.names) (hfresh : draft.table.replaces t = false) :
    draft.enact (.apply [] .transition t.fields) =
      ({ draft with table := draft.table.append t }, []) := by
  have hcreated : (draft.table.created t).filter (· ≠ Name.anonymous) = [] := by
    have hknown : (draft.table.insert t.state).contains t.target = true :=
      Table.contains_iff.mpr (Table.mem_names_insert.mpr (.inl htarget))
    rw [Table.created, hknown]
    rcases hstate with hstate | hstate
    · rw [hstate]
      split <;> rfl
    · rw [Table.contains_iff.mpr hstate]
      rfl
  simp only [enact, apply, addTransition, h.transition, Except.map, appendNotices, hcreated,
    hfresh]
  rfl

theorem enactAll_ofTransitions {ts : List Transition} (h : ∀ t ∈ ts, t.Readable)
    {draft : Draft Unit}
    (hstates : ∀ t ∈ ts, t.state = Name.anonymous ∨ t.state ∈ draft.table.names)
    (htargets : ∀ t ∈ ts, t.target ∈ draft.table.names) (hfresh : draft.table.Fresh ts) :
    enactAll ((Description.ofTransitions ts).actions []) draft =
      ({ draft with table := draft.table.appendAll ts }, []) := by
  -- By induction on the transitions: nothing is reported, as they name known states and read
  -- different symbols.
  induction ts generalizing draft with
  | nil => rfl
  | cons t ts ih =>
    rw [List.forall_mem_cons] at h hstates htargets
    have hgrown : ∀ {x}, x ∈ draft.table.names → x ∈ (draft.table.append t).names :=
      fun hx => Table.mem_names_append.mpr (.inl hx)
    let next : Draft Unit := { draft with table := draft.table.append t }
    have hlater : ∀ u ∈ ts, u.state = Name.anonymous ∨ u.state ∈ next.table.names :=
      fun u hu => (hstates.2 u hu).imp id hgrown
    have hrest := ih h.2 hlater (fun u hu => hgrown (htargets.2 u hu)) hfresh.append
    change enactAll (.apply [] .transition t.fields :: (Description.ofTransitions ts).actions [])
      draft = _
    rw [enactAll_cons, enact_transition h.1 hstates.1 htargets.1 hfresh.replaces, hrest]
    rfl

end Draft

namespace Table

def rebuilt (p : Program) : Table :=
  (Table.empty.insertAll p.stateNames).appendAll p.table.transitions

variable {p : Program}

theorem Consistent.anonymous_transition {table : Table} (h : table.Consistent)
    (ha : table.Anchored) (hknown : Name.anonymous ∈ table.names) :
    ∃ t ∈ table.transitions, t.state = Name.anonymous := by
  obtain ⟨t, ht⟩ := List.exists_mem_of_ne_nil _ (ha hknown)
  rw [← h.filter_transitions, List.mem_filter] at ht
  exact ⟨t, ht.1, beq_iff_eq.mp ht.2⟩

theorem Consistent.fresh_stateNames (h : p.table.Consistent) :
    (Table.empty.insertAll p.stateNames).Fresh p.table.transitions := by
  intro x
  rw [rules_insertAll, h.filter_transitions]
  exact h.reads_rules x

theorem Consistent.rules_rebuilt (h : p.table.Consistent) (x : Name) :
    (rebuilt p).rules x = p.table.rules x := by
  rw [rebuilt, rules_appendAll h.fresh_stateNames, rules_insertAll, h.filter_transitions]
  rfl

/-- The anonymous state is made known by a transition of its own. -/
theorem Consistent.mem_names_rebuilt (h : p.table.Consistent) (ha : p.table.Anchored) (x : Name) :
    x ∈ (rebuilt p).names ↔ x ∈ p.table.names := by
  rw [rebuilt, mem_names_appendAll, mem_names_insertAll]
  constructor
  · rintro ((hx | hx) | ⟨t, ht, hx⟩)
    · cases hx
    · exact (List.mem_filter.mp hx).1
    · obtain ⟨hstate, htarget⟩ := h.known_of_mem_transitions ht
      rcases hx with rfl | rfl
      · exact hstate
      · exact htarget
  · intro hx
    by_cases hname : x = Name.anonymous
    · subst hname
      obtain ⟨t, ht, hstate⟩ := h.anonymous_transition ha hx
      exact .inr ⟨t, ht, .inl hstate.symm⟩
    · exact .inl (.inr (List.mem_filter.mpr ⟨hx, by simpa using hname⟩))

end Table

namespace Program

variable {p : Program}

theorem WellFormed.local_of_mem_stateNames (h : p.WellFormed) {name : Name}
    (hname : name ∈ p.stateNames) : name.Local := by
  obtain ⟨hknown, hnamed⟩ := List.mem_filter.mp hname
  exact (h.table.names_proper name hknown).resolve_left (by simpa using hnamed)

theorem WellFormed.readable (h : p.WellFormed) {t : Transition} (ht : t ∈ p.table.transitions)
    (htarget : t.target ≠ Name.anonymous) : t.Readable := by
  obtain ⟨hstate, htargetKnown⟩ := h.table.known_of_mem_transitions ht
  obtain ⟨hread, hwrite⟩ := h.table.symbols_proper t ht
  exact ⟨h.table.names_proper _ hstate, hread,
    (h.table.names_proper _ htargetKnown).resolve_left htarget, hwrite⟩

theorem WellFormed.stateNames_ne_nil (h : p.WellFormed) (ha : p.table.Anchored)
    (htargets : ∀ t ∈ p.table.transitions, t.target ≠ Name.anonymous) : p.stateNames ≠ [] := by
  have hmem : ∀ name ∈ p.table.names, name ≠ Name.anonymous → p.stateNames ≠ [] := by
    intro name hknown hnamed
    exact List.ne_nil_of_mem (List.mem_filter.mpr ⟨hknown, by simpa using hnamed⟩)
  by_cases hinitial : p.initial = Name.anonymous
  · have hknown := h.initial_known
    rw [hinitial] at hknown
    obtain ⟨t, ht, -⟩ := h.table.anonymous_transition ha hknown
    exact hmem t.target (h.table.known_of_mem_transitions ht).2 (htargets t ht)
  · exact hmem p.initial h.initial_known hinitial

end Program

namespace Draft

theorem enactAll_printed {p : Program} (h : p.WellFormed)
    (htargets : ∀ t ∈ p.table.transitions, t.target ≠ Name.anonymous) :
    enactAll ((Description.directive .states p.stateNames
        (Description.ofTransitions p.table.transitions)).actions []) Draft.empty =
      ({ Draft.empty with table := Table.rebuilt p }, []) := by
  let named : Draft Unit := { Draft.empty with table := Table.empty.insertAll p.stateNames }
  have hknown : ∀ {x}, x ∈ p.table.names → x ≠ Name.anonymous → x ∈ named.table.names := by
    intro x hx hname
    exact Table.mem_names_insertAll.mpr (.inr (List.mem_filter.mpr ⟨hx, by simpa using hname⟩))
  have hnew : ∀ name ∈ p.stateNames, name ∉ (Draft.empty (μ := Unit)).table.names :=
    fun _ _ => List.not_mem_nil
  have hnodup : p.stateNames.Nodup := h.table.names_nodup.filter _
  have hstates := enact_states hnodup (fun _ => h.local_of_mem_stateNames) hnew
  have hsources : ∀ t ∈ p.table.transitions,
      t.state = Name.anonymous ∨ t.state ∈ named.table.names :=
    fun t ht => or_iff_not_imp_left.mpr (hknown (h.table.known_of_mem_transitions ht).1)
  have hrest := enactAll_ofTransitions (fun t ht => h.readable ht (htargets t ht)) hsources
    (fun t ht => hknown (h.table.known_of_mem_transitions ht).2 (htargets t ht))
    h.table.fresh_stateNames
  change enactAll (.apply [] .states p.stateNames :: (Description.ofTransitions
    p.table.transitions).actions []) Draft.empty = _
  rw [enactAll_cons, hstates]
  change ((enactAll _ named).1, [] ++ (enactAll _ named).2) = _
  rw [hrest]
  rfl

end Draft

/--
The states and the transitions of a program are read again without any report, and give a table
with the same states, each with the same transitions in the same order.
-/
theorem scanSource_printed (source : List Char) (p : Program)
    (hp : (compile source).program = some p)
    (htargets : ∀ t ∈ p.table.transitions, t.target ≠ Name.anonymous) :
    (scanSource p.printed).diagnostics = [] ∧
      (scanSource p.printed).draft.table.states.Perm p.table.states ∧
      ∀ name, (scanSource p.printed).draft.table.get? name = p.table.get? name := by
  have hwell := (wellFormed_and_reported hp).1
  have hanchored : p.table.Anchored := by
    rw [(Scan.program?_eq_some hp).1, scanSource_eq, Scan.draft_close]
    exact anchored_readSource source
  have hderives := Description.derives_printed (fun _ => hwell.local_of_mem_stateNames)
    (hwell.stateNames_ne_nil hanchored htargets)
    (fun t ht => hwell.readable ht (htargets t ht))
  obtain ⟨-, hdraft, hcauses⟩ := scanSource_of_derives hderives
  rw [Draft.enactAll_printed hwell htargets] at hdraft hcauses
  have htable : (scanSource p.printed).draft.table = Table.rebuilt p := congrArg Draft.table hdraft
  have hconsistent : (scanSource p.printed).draft.table.Consistent := by
    rw [scanSource_eq, Scan.draft_close]
    exact (sound_readSource p.printed).draft.table.toConsistent
  have hget : ∀ name, (scanSource p.printed).draft.table.get? name = p.table.get? name := by
    rw [htable]
    exact Table.get?_congr (hwell.table.mem_names_rebuilt hanchored) hwell.table.rules_rebuilt
  exact ⟨List.map_eq_nil_iff.mp hcauses, hwell.table.perm hconsistent hget, hget⟩

/-- The anonymous state, wildcards and a block that has a transition itself. -/
theorem scanSource_printed_block :
    let source := ['@', '1', ';', '$', '*', ':', '*', '-', '>', 'a', ':', '1', ':', 'L', ';', ':',
      'm', '\x7b', '$', ':', '1', '-', '>', 'x', ':', '_', ':', '*', ';', '\x7d', '!', 'm', '.',
      'x', ';', '*', 'z', ';']
    ∃ p, (compile source).program = some p ∧
      (∀ t ∈ p.table.transitions, t.target ≠ Name.anonymous) ∧
      (scanSource p.printed).diagnostics = [] ∧
      (scanSource p.printed).draft.table.states.Perm p.table.states ∧
      ∀ name, (scanSource p.printed).draft.table.get? name = p.table.get? name := by
  intro source
  have htargets : ∃ p, (compile source).program = some p ∧
      ∀ t ∈ p.table.transitions, t.target ≠ Name.anonymous := by
    refine ⟨(compile source).program.get (by decide), ?_, by decide⟩
    exact (Option.some_get _).symm
  obtain ⟨p, hp, htargets⟩ := htargets
  exact ⟨p, hp, htargets, scanSource_printed source p hp htargets⟩

end TapeMachine
