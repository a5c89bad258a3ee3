import TapeMachine.Proofs.Engine.Operations
/-!
# The symbols on a tape

A symbol comes onto a tape with its first content, as a blank, from a transition, by hand or with
another content. The first three are fixed by the program, and by hand only symbols of its alphabet
are accepted. So a tape never holds other symbols than those that its program offers, whatever is done
to the machine (`Supplied.kept`).
-/
namespace TapeMachine

namespace Tape

theorem mem_cells_write {symbol : Symbol} {t : Tape} {c : Char}
    (h : c ∈ (t.write symbol).cells) : c ∈ t.cells ∨ symbol = .char c := by
  have hcell : t.cell ∈ t.cells := List.mem_append_right _ List.mem_cons_self
  rw [cells_write] at h
  rcases List.mem_or_eq_of_mem_set h with h | rfl
  · exact .inl h
  · cases symbol with
    | any => exact .inl hcell
    | char c => exact .inr rfl

theorem mem_cells_move {d : Direction} {t : Tape} {c : Char} (h : c ∈ (t.move d).cells) :
    c ∈ t.cells ∨ c = Glyph.blank := by
  obtain ⟨l, r, hcells, -, -⟩ := t.shifts_move d
  rw [hcells, List.mem_append, List.mem_append] at h
  rcases h with (h | h) | h
  · exact .inr (List.eq_of_mem_replicate h)
  · exact .inl h
  · exact .inr (List.eq_of_mem_replicate h)

end Tape

def Program.Offers (p : Program) (c : Char) : Prop :=
  c = Glyph.blank ∨ c ∈ p.tape.cells ∨ c ∈ p.alphabet ∨
    ∃ t ∈ p.table.transitions, t.write = .char c

theorem Program.WellFormed.isCell_of_offers {p : Program} (h : p.WellFormed) {c : Char}
    (hc : p.Offers c) : Glyph.isCell c = true := by
  rcases hc with rfl | hc | hc | ⟨t, ht, hwrite⟩
  · exact Glyph.isCell_blank
  · exact h.tape_cells c hc
  · exact h.alphabet_cells c hc
  · obtain ⟨-, hproper⟩ := h.table.symbols_proper t ht
    rwa [hwrite] at hproper

namespace Machine

/-- The machine runs the program, and its tape holds only symbols that the program offers. -/
structure Supplied (p : Program) (m : Machine) : Prop where
  program : m.program = p
  cells : ∀ c ∈ m.tape.cells, p.Offers c

variable {p : Program} {m : Machine}

theorem mem_transitions_of_next? {t : Transition} (h : m.next? = some t) :
    t ∈ m.program.table.transitions := by
  obtain ⟨s, hs, -, ht, -⟩ := Table.owner_of_lookup h
  exact List.mem_flatMap.mpr ⟨s, hs, ht⟩

namespace Supplied

theorem moveHead (h : m.Supplied p) (d : Direction) : (m.moveHead d).Supplied p := by
  refine ⟨h.program, ?_⟩
  intro c hc
  rcases Tape.mem_cells_move hc with hc | rfl
  · exact h.cells c hc
  · exact .inl rfl

theorem write (h : m.Supplied p) {symbol : Symbol} (hsymbol : ∀ c, symbol = .char c → p.Offers c) :
    { m with tape := m.tape.write symbol }.Supplied p := by
  refine ⟨h.program, ?_⟩
  intro c hc
  rcases Tape.mem_cells_write hc with hc | hc
  · exact h.cells c hc
  · exact hsymbol c hc

theorem step (h : m.Supplied p) : m.step.2.Supplied p := by
  cases hnext : m.next? with
  | none =>
    rw [step_of_none hnext]
    exact h
  | some t =>
    have ht := mem_transitions_of_next? hnext
    rw [h.program] at ht
    have hwritten := h.write fun c hc => .inr (.inr (.inr ⟨t, ht, hc⟩))
    obtain ⟨hprogram, hcells⟩ := hwritten.moveHead t.direction
    rw [step_of_some hnext]
    exact ⟨hprogram, hcells⟩

theorem kept (p : Program) : Kept (Supplied p) where
  step _ h := h.step
  moveHead _ d h := h.moveHead d
  setState _ _ h := ⟨h.program, h.cells⟩
  write m c hc h := by
    rw [h.program] at hc
    refine h.write fun x hx => ?_
    cases hx
    exact .inr (.inr (.inl hc))
  replace m content hallowed h := by
    refine ⟨h.program, ?_⟩
    intro c hc
    rw [h.program] at hallowed
    rcases Tape.mem_cells_ofList hc with rfl | hc
    · exact .inl rfl
    · exact (hallowed c hc).imp_right fun hc => .inr (.inl hc)

end Supplied

/--
Whatever is done to a machine of a program, in any order, whether accepted or refused: each cell of
its tape holds a symbol that a cell may hold, never the wildcard. It is the blank, one of the first
content, one of the alphabet, or one that a transition writes.
-/
theorem performAll_symbols (source : List Char) (p : Program)
    (hp : (compile source).program = some p) (operations : List Operation) :
    ∀ c ∈ ((ofProgram p).performAll operations).tape.cells,
      Glyph.isCell c = true ∧ c ≠ Glyph.wildcard ∧
      (c = Glyph.blank ∨ c ∈ p.tape.cells ∨ c ∈ p.alphabet ∨
        ∃ t ∈ p.table.transitions, t.write = .char c) := by
  intro c hc
  have hwell := (compile_wellFormed source).2 p hp
  have hbegin : (ofProgram p).Supplied p := ⟨rfl, fun c hc => .inr (.inl hc)⟩
  have hoffers := ((Supplied.kept p).performAll hbegin operations).cells c hc
  have hcell := hwell.isCell_of_offers hoffers
  refine ⟨hcell, ?_, hoffers⟩
  rintro rfl
  exact Bool.noConfusion (hcell.symm.trans Glyph.isCell_wildcard)

/-- A transition writes a symbol outside the alphabet. By hand that symbol is refused, in the state
that was set and as a tape. -/
theorem performAll_symbols_outside :
    let source := ['@', '1', ';', '$', 'q', ':', '_', '>', 'q', ':', 'x', ':', 'R', ';', '!', 'q', ';']
    ∃ p, (compile source).program = some p ∧
      let m := (ofProgram p).performAll [.execute (.step 2), .setState ['z'], .writeSymbol 'x',
        .moveHead .left, .execute (.write '1'), .setTape ['x']]
      m.tape.cells = ['x', '1', '_'] ∧ 'x' ∉ p.alphabet ∧
        ∀ c ∈ m.tape.cells, c = Glyph.blank ∨ c ∈ p.tape.cells ∨ c ∈ p.alphabet ∨
          ∃ t ∈ p.table.transitions, t.write = .char c := by
  intro source
  let p : Program :=
    ⟨⟨[⟨['q'], [⟨['q'], .char '_', ['q'], .char 'x', .right⟩]⟩]⟩, ['q'], [Name.halt], ['1', '_'],
      Tape.ofList []⟩
  have hp : (compile source).program = some p := by decide
  refine ⟨p, hp, by decide, by decide, ?_⟩
  intro c hc
  exact (performAll_symbols source p hp _ c hc).2.2

end Machine

end TapeMachine
