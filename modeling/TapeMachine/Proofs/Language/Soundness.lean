import TapeMachine.Proofs.Language.Directives
import TapeMachine.Proofs.Language.Reading
/-!
# Sound drafts

What a description amounts to is sound after every character. A halt state and a whole name are
looked up in the table only when their directive is applied; they stay known because no directive
removes a name.
-/
namespace TapeMachine

def Symbol.Proper : Symbol → Prop
  | any => True
  | char c => Glyph.isCell c = true

/-- A consistent table whose names and symbols are proper. -/
structure Table.Sound (table : Table) : Prop extends table.Consistent where
  names_proper : ∀ name ∈ table.names, name.Proper
  symbols_proper : ∀ t ∈ table.transitions, t.read.Proper ∧ t.write.Proper

variable {μ : Type}

structure Draft.Sound (draft : Draft μ) : Prop where
  table : draft.table.Sound
  alphabet_nodup : draft.alphabet.Nodup
  alphabet_cells : ∀ c ∈ draft.alphabet, Glyph.isCell c = true
  tape_cells : ∀ content, draft.tape = some content → ∀ c ∈ content, Glyph.isCell c = true
  halts_nodup : draft.halts.Nodup
  halts_known : ∀ name ∈ draft.halts, name ≠ Name.halt ∧ name ∈ draft.table.names

namespace Table

theorem Sound.insertAll {table : Table} (h : table.Sound) {names : List Name}
    (hnames : ∀ name ∈ names, name.Proper) : (table.insertAll names).Sound where
  toConsistent := h.toConsistent.insertAll names
  names_proper := by
    intro name hname
    rcases mem_names_insertAll.mp hname with hname | hname
    · exact h.names_proper name hname
    · exact hnames name hname
  symbols_proper := by
    rw [transitions_insertAll]
    exact h.symbols_proper

theorem Sound.append {table : Table} (h : table.Sound) {t : Transition}
    (hstate : t.state.Proper) (htarget : t.target.Proper) (hread : t.read.Proper)
    (hwrite : t.write.Proper) : (table.append t).Sound where
  toConsistent := h.toConsistent.append t
  names_proper := by
    intro name hname
    rcases mem_names_append.mp hname with hname | rfl | rfl
    · exact h.names_proper name hname
    · exact hstate
    · exact htarget
  symbols_proper := by
    intro u hu
    rcases mem_transitions_append hu with rfl | hu
    · exact ⟨hread, hwrite⟩
    · exact h.symbols_proper u hu

end Table

namespace Draft

theorem sound_empty : (empty : Draft μ).Sound where
  table :=
    { toConsistent := Table.consistent_empty
      names_proper := fun _ hname => absurd hname List.not_mem_nil
      symbols_proper := fun _ ht => absurd ht List.not_mem_nil }
  alphabet_nodup := List.nodup_nil
  alphabet_cells := fun _ hc => absurd hc List.not_mem_nil
  tape_cells := fun _ hcontent => nomatch hcontent
  halts_nodup := List.nodup_nil
  halts_known := fun _ hname => absurd hname List.not_mem_nil

theorem proper_of_symbol? {field : List Char} {symbol : Symbol}
    (h : symbol? field = some symbol) : symbol.Proper := by
  match field, h with
  | [c], h =>
    simp only [symbol?, Symbol.ofChar] at h
    by_cases hwild : c = Glyph.wildcard
    · rw [if_pos (.inl hwild), if_pos hwild] at h
      cases h
      trivial
    · split at h
      next hc =>
        cases h
        exact hc.resolve_left hwild
      next => cases h

theorem Sound.proper_resolve {draft : Draft μ} (h : draft.Sound) {path : List Name}
    (hpath : ∀ part ∈ path, part.Part) {role : Role} {field : List Char} {name : Name}
    (hname : draft.resolve path role field = .ok name) : name.Proper := by
  rcases resolve_eq_ok hname with ⟨-, hknown⟩ | ⟨hlocal, rfl⟩
  · exact h.table.names_proper name hknown
  · exact .inr (hlocal.qualify hpath)

theorem proper_source {path : List Name} (hpath : ∀ part ∈ path, part.Part)
    {field : List Char} {name : Name} (hname : source path field = .ok name) : name.Proper := by
  rcases source_eq_ok hname with ⟨-, rfl⟩ | ⟨hlocal, rfl⟩
  · exact Name.proper_qualify_anonymous hpath
  · exact .inr (hlocal.qualify hpath)

theorem Sound.withTable {draft : Draft μ} (h : draft.Sound) {table : Table} (ht : table.Sound)
    (hnames : ∀ name ∈ draft.table.names, name ∈ table.names) :
    ({ draft with table } : Draft μ).Sound where
  table := ht
  alphabet_nodup := h.alphabet_nodup
  alphabet_cells := h.alphabet_cells
  tape_cells := h.tape_cells
  halts_nodup := h.halts_nodup
  halts_known := by
    intro name hname
    obtain ⟨hne, hknown⟩ := h.halts_known name hname
    exact ⟨hne, hnames name hknown⟩

theorem Sound.insertAll {draft : Draft μ} (h : draft.Sound) (names : List Name)
    (hnames : ∀ name ∈ names, name.Proper) :
    ({ draft with table := draft.table.insertAll names } : Draft μ).Sound := by
  apply h.withTable (h.table.insertAll hnames)
  intro name hname
  exact Table.mem_names_insertAll.mpr (.inl hname)

theorem Sound.applies {draft next : Draft μ} (h : draft.Sound) {path : List Name}
    (hpath : ∀ part ∈ path, part.Part) {d : Directive} {start : μ} {fields : List (List Char)}
    (hfields : ∀ field ∈ fields, ∀ c ∈ field, d.accepts c = true)
    (ha : Applies path start fields draft d next) : next.Sound := by
  cases ha with
  | tape hcontent hallowed =>
    refine { h with tape_cells := ?_ }
    intro content hsome c hc
    cases hsome
    have hallows := hallowed c hc
    simp only [allows, Bool.or_eq_true, beq_iff_eq, List.contains_iff_mem] at hallows
    rcases hallows with rfl | hmem
    · exact Glyph.isCell_blank
    · exact h.alphabet_cells c hmem
  | alphabet found hfound =>
    refine { h with alphabet_nodup := Roster.nodup_enterAll List.nodup_nil, alphabet_cells := ?_ }
    intro c hc
    rcases Roster.mem_enterAll.mp hc with hc | hc
    · cases hc
    · rcases List.mem_append.mp hc with hc | hc
      · have hfield : [c] ∈ fields := by
          rw [hfound]
          exact List.mem_map_of_mem hc
        exact hfields [c] hfield c List.mem_cons_self
      · rw [List.mem_singleton.mp hc]
        exact Glyph.isCell_blank
  | transition t ht =>
    obtain ⟨state, read, target, write, direction, -, hstate, hread, htarget, hwrite, -⟩ :=
      transition_eq_ok ht
    refine h.withTable (h.table.append (proper_source hpath hstate) (h.proper_resolve hpath htarget)
      (proper_of_symbol? hread) (proper_of_symbol? hwrite)) ?_
    intro name hname
    exact Table.mem_names_append.mpr (.inl hname)
  | initial name hname => exact { h with }
  | halts names hnames =>
    refine { h with halts_nodup := Roster.nodup_enterAll h.halts_nodup, halts_known := ?_ }
    intro name hname
    rcases Roster.mem_enterAll.mp hname with hname | hname
    · exact h.halts_known name hname
    · obtain ⟨hmem, hne⟩ := List.mem_filter.mp hname
      exact ⟨of_decide_eq_true hne, (haltNames_eq_ok hnames name hmem).1⟩
  | states hlocal =>
    apply h.insertAll
    intro name hname
    obtain ⟨field, hfield, rfl⟩ := List.mem_map.mp hname
    obtain ⟨hnamed, hrelative⟩ := hlocal field hfield
    have hletters : Name.isStateName field = true := List.all_eq_true.mpr (hfields field hfield)
    exact .inr (Name.Local.qualify hpath ⟨hnamed, hrelative, hletters⟩)

end Draft

def Item.Within (accepts : Char → Bool) (item : Item μ) : Prop :=
  ∀ field ∈ item.current :: item.fields, ∀ c ∈ field, accepts c = true

namespace Item

theorem within_fresh (accepts : Char → Bool) (start : μ) : (fresh start).Within accepts := by
  intro field hfield c hc
  rw [List.mem_singleton.mp hfield] at hc
  cases hc

theorem Idle.within {item : Item μ} (h : item.Idle) (accepts : Char → Bool) :
    item.Within accepts := by
  rw [h]
  exact within_fresh accepts _

theorem Within.push {accepts : Char → Bool} {item : Item μ} (h : item.Within accepts) {c : Char}
    (hc : accepts c = true) : (item.push c).Within accepts := by
  intro field hfield x hx
  rcases List.mem_cons.mp hfield with rfl | hfield
  · rcases List.mem_cons.mp hx with rfl | hx
    · exact hc
    · exact h item.current List.mem_cons_self x hx
  · exact h field (List.mem_cons_of_mem _ hfield) x hx

theorem Within.separate {accepts : Char → Bool} {item : Item μ} (h : item.Within accepts) :
    item.separate.Within accepts := by
  intro field hfield x hx
  rcases List.mem_cons.mp hfield with rfl | hfield
  · cases hx
  · rcases List.mem_cons.mp hfield with rfl | hfield
    · exact h item.current List.mem_cons_self x (List.mem_reverse.mp hx)
    · exact h field (List.mem_cons_of_mem _ hfield) x hx

theorem Within.allFields {accepts : Char → Bool} {item : Item μ} (h : item.Within accepts) :
    ∀ field ∈ item.allFields, ∀ c ∈ field, accepts c = true := by
  intro field hfield
  exact h.separate field (List.mem_cons_of_mem _ (List.mem_reverse.mp hfield))

end Item

namespace Scan

/-- What holds of names, characters and the draft between two characters. -/
structure Sound (s : Scan μ) : Prop where
  named : s.scopes.Named
  within : s.item.Within s.scopes.top.accepts
  draft : s.draft.Sound

theorem sound_begin (place : μ) : (begin place).Sound :=
  ⟨fun _ hframe => absurd hframe List.not_mem_nil, Item.within_fresh _ place, Draft.sound_empty⟩

private theorem named_cons {scope : Scope} {name : Option Name} {outer : Scopes}
    (houter : outer.Named) (hname : ∀ part, name = some part → part.Part) :
    Scopes.Named (⟨scope, name⟩ :: outer) := by
  intro frame hframe part hpart
  rcases List.mem_cons.mp hframe with rfl | hframe
  · exact hname part hpart
  · exact houter frame hframe part hpart

/-- Whatever a character does, the scan stays sound. -/
theorem Reads.sound {place : μ} {c : Char} {s t : Scan μ} (h : s.Orderly)
    (hr : Reads place c s t) (hs : s.Sound) : t.Sound := by
  have hbelow : ∀ {frame outer}, s.scopes = frame :: outer → Scopes.Named outer := by
    intro frame outer hscopes f hf
    apply hs.named f
    rw [hscopes]
    exact List.mem_cons_of_mem frame hf
  have hunnamed : ∀ part : Name, none = some part → part.Part := fun _ hpart => nomatch hpart
  cases hr with
  | passes => exact hs
  | opens scope => exact ⟨named_cons hs.named hunnamed, Item.within_fresh _ place, hs.draft⟩
  | strays => exact ⟨hs.named, hs.within, hs.draft⟩
  | closes frame outer hscopes hframe =>
    have hidle := h.idle (by rw [top_cons hscopes, hframe])
    exact ⟨hbelow hscopes, hidle.within _, hs.draft⟩
  | collects _ _ _ haccepts => exact ⟨hs.named, hs.within.push haccepts, hs.draft⟩
  | separates => exact ⟨hs.named, hs.within.separate, hs.draft⟩
  | rejects => exact ⟨hs.named, hs.within, hs.draft⟩
  | discards frame outer hscopes => exact ⟨hbelow hscopes, Item.within_fresh _ place, hs.draft⟩
  | commits d frame outer hscopes hframe =>
    refine ⟨?_, ?_, ?_⟩
    · rw [scopes_settle]
      exact hbelow hscopes
    · rw [item_settle]
      exact Item.within_fresh _ place
    · rw [draft_settle]
      cases happly : s.draft.apply outer.path d s.item.start s.item.allFields with
      | error r => exact hs.draft
      | ok result =>
        have hfields := hs.within.allFields
        rw [top_cons hscopes, hframe] at hfields
        exact hs.draft.applies (hbelow hscopes).path hfields (Draft.applies_of_apply happly)
  | abandons frame outer hscopes => exact ⟨hbelow hscopes, Item.within_fresh _ place, hs.draft⟩
  | names frame outer hscopes hframe _ _ hname =>
    have hpart : Name.Part s.item.current.reverse := by
      refine ⟨fun hnil => hname (List.reverse_eq_nil_iff.mp hnil), ?_⟩
      intro c hc
      have haccepts := hs.within s.item.current List.mem_cons_self c (List.mem_reverse.mp hc)
      rwa [top_cons hscopes, hframe] at haccepts
    have hnamed : Scopes.Named (⟨.block, some s.item.current.reverse⟩ :: outer) := by
      apply named_cons (hbelow hscopes)
      intro part hsome
      rw [← Option.some.inj hsome]
      exact hpart
    refine ⟨?_, ?_, ?_⟩
    · rw [scopes_declareBlock]
      exact hnamed
    · rw [item_declareBlock]
      exact Item.within_fresh _ place
    · rw [draft_declareBlock]
      refine hs.draft.insertAll [_] ?_
      intro name hmem
      rw [List.mem_singleton.mp hmem]
      exact Name.proper_qualify_anonymous hnamed.path
  | numbers frame outer hscopes =>
    exact ⟨named_cons (hbelow hscopes) hunnamed, Item.within_fresh _ place, hs.draft⟩
  | blanks frame outer hscopes =>
    exact ⟨named_cons (hbelow hscopes) hunnamed, Item.within_fresh _ place, hs.draft⟩
  | drops frame outer hscopes =>
    exact ⟨fun f hf => hbelow hscopes f (List.mem_of_mem_tail hf), Item.within_fresh _ place,
      hs.draft⟩
  | interrupts frame outer hscopes =>
    exact ⟨fun f hf => hbelow hscopes f (List.mem_of_mem_tail hf), Item.within_fresh _ place,
      hs.draft⟩

end Scan

theorem sound_readSource (source : List Char) : (readSource source).Sound :=
  Scan.readAll_induction (fun h hr hs => hr.sound h hs) (Scan.orderly_begin Mark.origin)
    (Scan.sound_begin Mark.origin) _

end TapeMachine
