import TapeMachine.Engine.Machine
import TapeMachine.Proofs.Language.History
import TapeMachine.Proofs.Language.WellFormed
/-!
# The tape and the alphabet

A tape is checked against the alphabet that is in force when the tape is set. A later alphabet takes
the place of that one and the tape is not checked again. So the tape of a program lies within its
alphabet exactly when the last alphabet after the last tape still holds the symbols of the tape.
-/
namespace TapeMachine

/-- The fields of the last alphabet after the last tape, once one more directive was applied. -/
def Application.late (late : Option (List (List Char))) (a : Application) :
    Option (List (List Char)) :=
  match a.directive with
  | .tape => none
  | .alphabet => some a.fields
  | _ => late

def lateAlphabet (history : List Application) : Option (List (List Char)) :=
  history.foldl Application.late none

variable {μ : Type}

/-- What the tape and the alphabet of a draft have in common, given the last alphabet that came
after the tape. -/
def Draft.Agrees (late : Option (List (List Char))) (draft : Draft μ) : Prop :=
  match late with
  | none => ∀ content, draft.tape = some content → ∀ c ∈ content, draft.allows c = true
  | some fields => ∀ c, draft.allows c = true ↔ c = Glyph.blank ∨ [c] ∈ fields

theorem Draft.allows_iff {draft : Draft μ} {c : Char} :
    draft.allows c = true ↔ c = Glyph.blank ∨ c ∈ draft.alphabet := by
  simp only [allows, Bool.or_eq_true, beq_iff_eq, List.contains_iff_mem]

theorem Draft.Agrees.applies {late : Option (List (List Char))} {draft next : Draft μ}
    (h : draft.Agrees late) {path : List Name} {start : μ} {a : Application}
    (ha : Applies path start a.fields draft a.directive next) : next.Agrees (a.late late) := by
  obtain ⟨d, fields⟩ := a
  cases ha with
  | tape hcontent hallowed =>
    intro content hsome c hc
    cases hsome
    exact hallowed c hc
  | alphabet found hfound =>
    intro c
    have hsingle : fields = found.map ([·]) := hfound
    have hfield : [c] ∈ fields ↔ c ∈ found := by
      simp [hsingle]
    rw [allows_iff, Roster.mem_enterAll, List.mem_append, List.mem_singleton, hfield]
    constructor
    · rintro (hc | hc | hc | hc)
      · exact .inl hc
      · cases hc
      · exact .inr hc
      · exact .inl hc
    · rintro (hc | hc)
      · exact .inl hc
      · exact .inr (.inr (.inl hc))
  | transition => exact h
  | initial => exact h
  | halts => exact h
  | states => exact h

namespace Scan

theorem agrees_readAll {s : Scan μ} (h : s.Orderly) {late : Option (List (List Char))}
    (hs : s.draft.Agrees late) (source : List (μ × Char)) :
    (s.readAll source).draft.Agrees ((s.history source).foldl Application.late late) := by
  -- By induction on the text, with the alphabet that is late so far.
  induction source generalizing s late with
  | nil => exact hs
  | cons p source ih =>
    have hr := reads_read h p.1 p.2
    rw [readAll_cons, history, List.foldl_append]
    apply ih (hr.orderly h)
    rcases hr.applied with ⟨a, path, start, happlied, ha⟩ | ⟨hnone, table, htable⟩
    · rw [happlied]
      exact hs.applies ha
    · rw [hnone, htable]
      exact hs

theorem mem_alphabet_iff {s : Scan μ} {p : Program} (h : s.program? = some p) {c : Char} :
    c ∈ p.alphabet ↔ s.draft.allows c = true := by
  obtain ⟨-, -, -, halphabet, -⟩ := program?_eq_some h
  rw [halphabet, Roster.mem_enter, Draft.allows_iff]
  exact or_comm

/-- The tape of a program can be outside its alphabet only through a late alphabet. -/
theorem cells_in_alphabet_iff {s : Scan μ} {late : Option (List (List Char))}
    (hs : s.draft.Agrees late) {p : Program} (h : s.program? = some p) :
    (∀ c ∈ p.tape.cells, c ∈ p.alphabet) ↔
      ∀ fields, late = some fields → ∀ c ∈ p.tape.cells, c = Glyph.blank ∨ [c] ∈ fields := by
  cases late with
  | none =>
    constructor
    · intro _ fields hfields
      cases hfields
    · intro _ c hc
      rw [mem_alphabet_iff h]
      rcases mem_cells_of_program h hc with hblank | ⟨content, hcontent, hc⟩
      · exact Draft.allows_iff.mpr (.inl hblank)
      · exact hs content hcontent c hc
  | some fields =>
    have hallowed : ∀ c, c ∈ p.alphabet ↔ c = Glyph.blank ∨ [c] ∈ fields := by
      intro c
      rw [mem_alphabet_iff h]
      exact hs c
    constructor
    · intro hcells others hothers c hc
      cases hothers
      exact (hallowed c).mp (hcells c hc)
    · intro hkept c hc
      exact (hallowed c).mpr (hkept fields rfl c hc)

end Scan

namespace Machine

theorem setTape_ok_iff {m : Machine} {content : List Char} :
    (∃ next, m.setTape content = .ok next) ↔ ∀ c ∈ content, m.allows c = true := by
  rw [setTape]
  constructor
  · intro hok
    obtain ⟨next, hnext⟩ := hok
    split at hnext
    next => cases hnext
    next hfind =>
      intro c hc
      have hnot := List.find?_eq_none.mp hfind c hc
      simpa using hnot
  · intro h
    have hfind : content.find? (!m.allows ·) = none := by
      rw [List.find?_eq_none]
      intro c hc
      simp [h c hc]
    rw [hfind]
    exact ⟨_, rfl⟩

theorem allows_iff {m : Machine} {c : Char} :
    m.allows c = true ↔ c = Glyph.blank ∨ c ∈ m.program.alphabet := by
  simp only [allows, Bool.or_eq_true, beq_iff_eq, List.contains_iff_mem]

end Machine

/--
The tape of a program lies within its alphabet, and a machine of the program accepts it again,
exactly when every symbol of it is blank or a field of the last alphabet after the last tape, if
there is such an alphabet.
-/
theorem compile_tape_in_alphabet (source : List Char) (p : Program)
    (h : (compile source).program = some p) :
    let kept := ∀ fields, lateAlphabet (sourceHistory source) = some fields →
      ∀ c ∈ p.tape.cells, c = Glyph.blank ∨ [c] ∈ fields
    Glyph.blank ∈ p.alphabet ∧ ((∀ c ∈ p.tape.cells, c ∈ p.alphabet) ↔ kept) ∧
      ((∃ m, (Machine.ofProgram p).setTape p.tape.cells = .ok m) ↔ kept) := by
  intro kept
  have hagrees : (scanSource source).draft.Agrees (lateAlphabet (sourceHistory source)) := by
    rw [scanSource_eq, Scan.draft_close]
    apply Scan.agrees_readAll (Scan.orderly_begin Mark.origin)
    intro content hsome
    cases hsome
  have hblank : Glyph.blank ∈ p.alphabet :=
    (Scan.mem_alphabet_iff h).mpr (Draft.allows_iff.mpr (.inl rfl))
  have hkept := Scan.cells_in_alphabet_iff hagrees h
  have haccepted : (∃ m, (Machine.ofProgram p).setTape p.tape.cells = .ok m) ↔
      ∀ c ∈ p.tape.cells, c ∈ p.alphabet := by
    rw [Machine.setTape_ok_iff]
    apply forall₂_congr
    intro c hc
    rw [Machine.allows_iff]
    exact or_iff_right_of_imp fun hc => hc ▸ hblank
  exact ⟨hblank, hkept, haccepted.trans hkept⟩

/-- A second alphabet that still holds the symbol of the tape. -/
theorem compile_tape_in_alphabet_extended :
    ∃ p, (compile ['@', '0', ';', '&', '0', ';', '@', '1', ':', '0', ';',
        '*', 'q', ';', '!', 'q', ';']).program = some p ∧
      (∀ c ∈ p.tape.cells, c ∈ p.alphabet) ∧
      ∃ m, (Machine.ofProgram p).setTape p.tape.cells = .ok m := by
  let source := ['@', '0', ';', '&', '0', ';', '@', '1', ':', '0', ';', '*', 'q', ';', '!', 'q', ';']
  let p : Program :=
    ⟨⟨[⟨['q'], []⟩]⟩, ['q'], [Name.halt], ['1', '0', '_'], Tape.ofList ['0']⟩
  have hp : (compile source).program = some p := by decide
  have hlate : lateAlphabet (sourceHistory source) = some [['1'], ['0']] := by decide
  obtain ⟨-, hmember, haccepted⟩ := compile_tape_in_alphabet source p hp
  have hkept : ∀ fields, lateAlphabet (sourceHistory source) = some fields →
      ∀ c ∈ p.tape.cells, c = Glyph.blank ∨ [c] ∈ fields := by
    intro fields hfields c hc
    rw [hlate] at hfields
    cases hfields
    rw [List.mem_singleton.mp hc]
    decide
  exact ⟨p, hp, hmember.mpr hkept, haccepted.mpr hkept⟩

/-- A second alphabet that no longer holds the symbol of the tape: there is no error, but a machine of
the program refuses its own tape. -/
theorem compile_tape_outside_alphabet :
    ∃ p, (compile ['@', '0', ';', '&', '0', ';', '@', '1', ';',
        '*', 'q', ';', '!', 'q', ';']).program = some p ∧
      p.tape.cells = ['0'] ∧ '0' ∉ p.alphabet ∧
      (Machine.ofProgram p).setTape p.tape.cells = .error (.tapeOutsideAlphabet '0') := by
  refine ⟨⟨⟨[⟨['q'], []⟩]⟩, ['q'], [Name.halt], ['1', '_'], Tape.ofList ['0']⟩, ?_, ?_, ?_, ?_⟩
  · decide
  · rfl
  · decide
  · rfl

end TapeMachine
