import TapeMachine.Proofs.Samples.Programs
/-!
# Inverting bits

The head inverts the bits on its way to the first blank right of them, goes back over the inverted
ones to the first blank left of them, and then stands on the first bit (`bitFlipper_inverts`). The
row has grown by a cell at each end, so the first bit is no longer its first cell.
-/
namespace TapeMachine.Samples

def invert (c : Char) : Char := if c = '0' then '1' else '0'

theorem invert_bit {c : Char} (h : c = '0' ∨ c = '1') : invert c = '0' ∨ invert c = '1' := by
  rcases h with rfl | rfl
  · exact .inr rfl
  · exact .inl rfl

theorem flipping_flips {c : Char} (h : c = '0' ∨ c = '1') :
    flipping.Passes "flip".toList .right invert c := by
  rcases h with rfl | rfl <;> exact ⟨_, rfl, rfl, rfl, rfl⟩

theorem flipping_rewinds {c : Char} (h : c = '0' ∨ c = '1') :
    flipping.Passes "flip.rewind".toList .left id c := by
  rcases h with rfl | rfl <;> exact ⟨_, rfl, rfl, rfl, rfl⟩

theorem halts_flipping {w : List Char} (hw : ∀ c ∈ w, c = '0' ∨ c = '1') :
    Machine.Halts ⟨flipping, .facing .right w [], "flip".toList, 0⟩ (2 * w.length + 2)
      ⟨flipping, .facing .right (w.map invert ++ [Glyph.blank]) [Glyph.blank], "done".toList,
        2 * w.length + 2⟩ := by
  have hflip := Machine.Runs.sweep (fun c hc => flipping_flips (hw c hc)) (by decide) (by decide)
    [] [] 0
  rw [List.append_nil, List.append_nil, Nat.zero_add] at hflip
  -- at the blank right of the bits
  have hturn : Machine.Runs
      ⟨flipping, .facing .right [] (w.map invert).reverse, "flip".toList, w.length⟩ 1
      ⟨flipping, .facing .left ((w.map invert).reverse ++ []) [Glyph.blank], "flip.rewind".toList,
        w.length + 1⟩ := by
    rw [List.append_nil]
    exact .step rfl rfl rfl
  have hbits : ∀ c ∈ (w.map invert).reverse, c = '0' ∨ c = '1' := by
    intro c hc
    obtain ⟨b, hb, rfl⟩ := List.mem_map.mp (List.mem_reverse.mp hc)
    exact invert_bit (hw b hb)
  have hrewind := Machine.Runs.sweep (fun c hc => flipping_rewinds (hbits c hc)) (by decide)
    (by decide) [] [Glyph.blank] (w.length + 1)
  rw [List.map_id, List.reverse_reverse, List.length_reverse, List.length_map] at hrewind
  -- at the blank left of them
  have hlast : Machine.Runs
      ⟨flipping, .facing .left [] (w.map invert ++ [Glyph.blank]), "flip.rewind".toList,
        w.length + 1 + w.length⟩ 1
      ⟨flipping, .facing .right (w.map invert ++ [Glyph.blank]) [Glyph.blank], "done".toList,
        w.length + 1 + w.length + 1⟩ := .step rfl rfl rfl
  have hcount : w.length + 1 + w.length + 1 = 2 * w.length + 2 := by omega
  have hwhole := ((hflip.trans hturn).trans hrewind).trans hlast
  rw [hcount] at hwhole
  exact ⟨hwhole, rfl⟩

/-- The program of the sample inverts every bit and goes back to the first one. -/
theorem bitFlipper_inverts {w : List Char} (hw : ∀ c ∈ w, c = '0' ∨ c = '1') :
    ∃ stop, HaltsOn bitFlipper w (2 * w.length + 2) stop ∧ stop.state = "done".toList ∧
      stop.tape.cells = Glyph.blank :: w.map invert ++ [Glyph.blank] ∧ stop.tape.head = 1 := by
  have halphabet : ∀ c ∈ w, c ∈ flipping.alphabet := by
    intro c hc
    rcases hw c hc with rfl | rfl <;> decide
  refine ⟨_, .of_halts compile_bitFlipper halphabet (halts_flipping hw), rfl, ?_, rfl⟩
  cases w <;> rfl

theorem bitFlipper_inverts_pair : (∀ c ∈ ['0', '1'], c = '0' ∨ c = '1') ∧
    ∃ stop, HaltsOn bitFlipper ['0', '1'] 6 stop ∧ stop.state = "done".toList ∧
      stop.tape.cells = [Glyph.blank, '1', '0', Glyph.blank] ∧ stop.tape.head = 1 :=
  have hw : ∀ c ∈ ['0', '1'], c = '0' ∨ c = '1' := by simp
  ⟨hw, bitFlipper_inverts hw⟩

end TapeMachine.Samples
