import TapeMachine.Proofs.Samples.Programs
/-!
# Adding unary numbers

The gap between the numbers is closed with a one on the way to the first blank, and the last one is
then taken away (`unaryAddition_adds`). If both numbers are zero, it is the one in the gap.
-/
namespace TapeMachine.Samples

theorem adding_scans : adding.Passes "scan".toList .right id '1' := ⟨_, rfl, rfl, rfl, rfl⟩

theorem adding_ends : adding.Passes "end".toList .right id '1' := ⟨_, rfl, rfl, rfl, rfl⟩

theorem runs_ones {p : Program} {q : Name} {d : Direction} (h : p.Passes q d id '1') (hd : d ≠ .stay)
    (hq : q ∉ p.halts) (n : Nat) (rest behind : List Char) (steps : Nat) :
    Machine.Runs ⟨p, .facing d (List.replicate n '1' ++ rest) behind, q, steps⟩ n
      ⟨p, .facing d rest (List.replicate n '1' ++ behind), q, steps + n⟩ := by
  have hones : ∀ c ∈ List.replicate n '1', p.Passes q d id c := by
    intro c hc
    rwa [List.eq_of_mem_replicate hc]
  have hsweep := Machine.Runs.sweep hones hd hq rest behind steps
  rwa [List.map_id, List.reverse_replicate, List.length_replicate] at hsweep

theorem halts_adding (a b : Nat) :
    Machine.Halts ⟨adding, .facing .right
        (List.replicate a '1' ++ '0' :: List.replicate b '1') [], "scan".toList, 0⟩ (a + b + 3)
      ⟨adding, .facing .left (Glyph.blank :: List.replicate (a + b) '1') [Glyph.blank],
        "done".toList, a + b + 3⟩ := by
  have hscan := runs_ones adding_scans (by decide) (by decide) a
    ('0' :: List.replicate b '1') [] 0
  rw [List.append_nil, Nat.zero_add] at hscan
  have hgap : Machine.Runs
      ⟨adding, .facing .right ('0' :: List.replicate b '1') (List.replicate a '1'),
        "scan".toList, a⟩ 1
      ⟨adding, .facing .right (List.replicate b '1' ++ []) ('1' :: List.replicate a '1'),
        "end".toList, a + 1⟩ := by
    rw [List.append_nil]
    exact .step rfl rfl rfl
  have hend := runs_ones adding_ends (by decide) (by decide) b []
    ('1' :: List.replicate a '1') (a + 1)
  have hones : List.replicate b '1' ++ '1' :: List.replicate a '1' =
      '1' :: List.replicate (a + b) '1' := by
    rw [← List.replicate_succ, ← List.replicate_succ, List.replicate_append_replicate]
    congr 1
    omega
  rw [hones] at hend
  have hturn : Machine.Runs
      ⟨adding, .facing .right [] ('1' :: List.replicate (a + b) '1'), "end".toList, a + 1 + b⟩ 1
      ⟨adding, .facing .left ('1' :: List.replicate (a + b) '1') [Glyph.blank], "erase".toList,
        a + 1 + b + 1⟩ := .step rfl rfl rfl
  have herase : Machine.Runs
      ⟨adding, .facing .left ('1' :: List.replicate (a + b) '1') [Glyph.blank], "erase".toList,
        a + 1 + b + 1⟩ 1
      ⟨adding, .facing .left (Glyph.blank :: List.replicate (a + b) '1') [Glyph.blank],
        "done".toList, a + 1 + b + 1 + 1⟩ := .step rfl rfl rfl
  have hcount : a + 1 + b + 1 + 1 = a + b + 3 := by omega
  have hwhole := (((hscan.trans hgap).trans hend).trans hturn).trans herase
  rw [hcount] at hwhole
  exact ⟨hwhole, rfl⟩

/-- The program of the sample adds two unary numbers with a gap between them. -/
theorem unaryAddition_adds (a b : Nat) :
    ∃ stop, HaltsOn unaryAddition (List.replicate a '1' ++ '0' :: List.replicate b '1')
        (a + b + 3) stop ∧ stop.state = "done".toList ∧
      stop.tape.cells = List.replicate (a + b) '1' ++ [Glyph.blank, Glyph.blank] ∧
        stop.tape.head = a + b := by
  have halphabet : ∀ c ∈ List.replicate a '1' ++ '0' :: List.replicate b '1',
      c ∈ adding.alphabet := by
    intro c hc
    have hc : c = '1' ∨ c = '0' := by
      rcases List.mem_append.mp hc with hc | hc
      · exact .inl (List.eq_of_mem_replicate hc)
      · exact (List.mem_cons.mp hc).symm.imp_left List.eq_of_mem_replicate
    rcases hc with rfl | rfl <;> decide
  refine ⟨_, .of_halts compile_unaryAddition halphabet (halts_adding a b), rfl, ?_, ?_⟩
  · exact congrArg (· ++ [Glyph.blank, Glyph.blank]) List.reverse_replicate
  · exact List.length_replicate

end TapeMachine.Samples
