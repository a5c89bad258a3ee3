import TapeMachine.Proofs.Language.Soundness
/-!
# Well-formed programs

There is a program exactly when nothing that was reported is an error: without an initial state the
verdict holds one. Every program is well formed.
-/
namespace TapeMachine

structure Program.WellFormed (p : Program) : Prop where
  table : p.table.Sound
  initial_known : p.initial ∈ p.table.names
  halts : ∃ others, p.halts = Name.halt :: others ∧ others.Nodup ∧
    ∀ name ∈ others, name ≠ Name.halt ∧ name ∈ p.table.names
  alphabet_nodup : p.alphabet.Nodup
  alphabet_cells : ∀ c ∈ p.alphabet, Glyph.isCell c = true
  alphabet_blank : Glyph.blank ∈ p.alphabet
  tape_nonempty : p.tape.cells ≠ []
  tape_head : p.tape.head = 0
  tape_cells : ∀ c ∈ p.tape.cells, Glyph.isCell c = true

variable {μ : Type}

theorem Diagnostic.errorCount_eq_zero {ds : List (Diagnostic μ)} :
    errorCount ds = 0 ↔ ∀ d ∈ ds, d.severity ≠ .error := by
  rw [errorCount, List.countP_eq_zero]
  constructor
  · intro h d hd heq
    exact h d hd (beq_iff_eq.mpr heq)
  · intro h d hd herror
    exact h d hd (beq_iff_eq.mp herror)

theorem Tape.head_ofList (content : List Char) : (Tape.ofList content).head = 0 := by
  cases content with
  | nil => rfl
  | cons c rest => rfl

theorem Tape.cells_ne_nil (t : Tape) : t.cells ≠ [] := by
  apply List.append_ne_nil_of_right_ne_nil
  exact List.cons_ne_nil t.cell t.right

theorem Tape.mem_cells_ofList {content : List Char} {c : Char}
    (hc : c ∈ (Tape.ofList content).cells) : c = Glyph.blank ∨ c ∈ content := by
  by_cases hcontent : content = []
  · rw [hcontent] at hc
    exact .inl (List.mem_singleton.mp hc)
  · rw [Tape.cells_ofList hcontent] at hc
    exact .inr hc

namespace Scan

theorem isFatal_of_errorCount {s : Scan μ} (h : Diagnostic.errorCount s.verdict = 0)
    {p : Problem} (hp : p ∈ s.draft.table.problems (s.draft.initial.map (·.1))) :
    p.isFatal = false := by
  have hreport : (⟨.problem p, s.placeOf p, .block⟩ : Diagnostic μ) ∈ s.verdict :=
    List.mem_append_right _ (List.mem_map_of_mem hp)
  have hseverity := Diagnostic.errorCount_eq_zero.mp h _ hreport
  rw [← Bool.not_eq_true]
  intro hfatal
  apply hseverity
  rw [Diagnostic.severity, Cause.severity, if_pos hfatal]

theorem initial_of_errorCount {s : Scan μ} (h : Diagnostic.errorCount s.verdict = 0) :
    ∃ name place, s.draft.initial = some (name, place) ∧ name ∈ s.draft.table.names := by
  have hfatal := fun p hp => isFatal_of_errorCount h (p := p) hp
  simp only [Table.problems, List.mem_append] at hfatal
  cases hinitial : s.draft.initial with
  | none =>
    rw [hinitial] at hfatal
    exact Bool.noConfusion (hfatal .missingInitial (.inl (.inl List.mem_cons_self)))
  | some initial =>
    obtain ⟨name, place⟩ := initial
    refine ⟨name, place, rfl, ?_⟩
    rw [hinitial] at hfatal
    by_cases hknown : s.draft.table.contains name = true
    · exact Table.contains_iff.mp hknown
    · have hproblem : Problem.invalidInitial name ∈ s.draft.table.initialProblems (some name) := by
        rw [Table.initialProblems, if_neg hknown]
        exact List.mem_cons_self
      exact Bool.noConfusion (hfatal _ (.inl (.inl hproblem)))

theorem program?_isSome {s : Scan μ} :
    s.program?.isSome = true ↔ Diagnostic.errorCount s.verdict = 0 := by
  rw [program?]
  constructor
  · intro h
    split at h
    next hzero => exact hzero
    next => cases h
  · intro h
    obtain ⟨name, place, hinitial, -⟩ := initial_of_errorCount h
    rw [if_pos h, Draft.program?, hinitial]
    rfl

/-- A program is read off the draft of a scan without errors. -/
theorem program?_eq_some {s : Scan μ} {p : Program} (h : s.program? = some p) :
    p.table = s.draft.table ∧ p.initial ∈ s.draft.table.names ∧
      p.halts = Name.halt :: s.draft.halts ∧
      p.alphabet = Roster.enter s.draft.alphabet Glyph.blank ∧
      p.tape = Tape.ofList (s.draft.tape.getD []) := by
  have hzero : Diagnostic.errorCount s.verdict = 0 :=
    program?_isSome.mp (Option.isSome_iff_exists.mpr ⟨p, h⟩)
  obtain ⟨name, place, hinitial, hknown⟩ := initial_of_errorCount hzero
  rw [program?, if_pos hzero, Draft.program?, hinitial] at h
  cases h
  exact ⟨rfl, hknown, rfl, rfl, rfl⟩

theorem mem_cells_of_program {s : Scan μ} {p : Program} (h : s.program? = some p) {c : Char}
    (hc : c ∈ p.tape.cells) :
    c = Glyph.blank ∨ ∃ content, s.draft.tape = some content ∧ c ∈ content := by
  obtain ⟨-, -, -, -, htape⟩ := program?_eq_some h
  rw [htape] at hc
  rcases Tape.mem_cells_ofList hc with hblank | hc
  · exact .inl hblank
  · cases hcontent : s.draft.tape with
    | none =>
      rw [hcontent] at hc
      cases hc
    | some content =>
      rw [hcontent] at hc
      exact .inr ⟨content, rfl, hc⟩

theorem program_wellFormed {s : Scan μ} (hs : s.draft.Sound) {p : Program}
    (h : s.program? = some p) : p.WellFormed := by
  obtain ⟨htable, hinitial, hhalts, halphabet, htape⟩ := program?_eq_some h
  constructor
  case table =>
    rw [htable]
    exact hs.table
  case initial_known =>
    rw [htable]
    exact hinitial
  case halts =>
    rw [htable]
    exact ⟨s.draft.halts, hhalts, hs.halts_nodup, hs.halts_known⟩
  case alphabet_nodup =>
    rw [halphabet]
    exact Roster.nodup_enter hs.alphabet_nodup
  case alphabet_cells =>
    intro c hc
    rw [halphabet] at hc
    rcases Roster.mem_enter.mp hc with hc | rfl
    · exact hs.alphabet_cells c hc
    · exact Glyph.isCell_blank
  case alphabet_blank =>
    rw [halphabet]
    exact Roster.mem_enter.mpr (.inr rfl)
  case tape_nonempty => exact p.tape.cells_ne_nil
  case tape_head =>
    rw [htape]
    exact Tape.head_ofList _
  case tape_cells =>
    intro c hc
    rcases mem_cells_of_program h hc with rfl | ⟨content, hcontent, hc⟩
    · exact Glyph.isCell_blank
    · exact hs.tape_cells content hcontent c hc

end Scan

/--
There is a program exactly when no diagnostic is an error, and a program is well formed.
-/
theorem compile_wellFormed (source : List Char) :
    ((compile source).program.isSome = true ↔
      ∀ d ∈ (compile source).diagnostics, d.severity ≠ .error) ∧
    ∀ p, (compile source).program = some p → p.WellFormed := by
  have hsound : (scanSource source).draft.Sound := by
    rw [scanSource_eq, Scan.draft_close]
    exact (sound_readSource source).draft
  constructor
  · rw [← Diagnostic.errorCount_eq_zero]
    exact Scan.program?_isSome
  · intro p hp
    exact Scan.program_wellFormed hsound hp

/-- The target of a transition is made known and then halts. -/
theorem compile_wellFormed_unary :
    ∃ p, (compile ['@', '1', ';', '&', '1', ';', '$', 'q', ':', '1', '>', 'p', ':', '_', ':', 'R',
        ';', '!', 'q', ';', '~', 'p', ';']).program = some p ∧ p.WellFormed := by
  let source := ['@', '1', ';', '&', '1', ';', '$', 'q', ':', '1', '>', 'p', ':', '_', ':', 'R',
    ';', '!', 'q', ';', '~', 'p', ';']
  have hsome : (compile source).program.isSome = true := by decide
  obtain ⟨p, hp⟩ := Option.isSome_iff_exists.mp hsome
  exact ⟨p, hp, (compile_wellFormed source).2 p hp⟩

end TapeMachine
