import TapeMachine.Proofs.Samples.Programs
/-!
# Adding one to a binary number

The head goes to the first blank right of the number and comes back with a carry: it leaves a zero
for every one, up to the first digit or blank that can take the carry (`halts_carry`). What it leaves
is the number plus one (`binaryIncrement_increments`), with one digit more if there was no zero.
-/
namespace TapeMachine.Samples

def successor : List Char → List Char
  | [] => ['1']
  | c :: digits => if c = '1' then '0' :: successor digits else '1' :: digits

variable {digits : List Char}

theorem successor_bits (h : ∀ c ∈ digits, c = '0' ∨ c = '1') :
    ∀ c ∈ successor digits, c = '0' ∨ c = '1' := by
  induction digits with
  | nil => simp [successor]
  | cons c digits ih =>
    obtain ⟨hc, hdigits⟩ := List.forall_mem_cons.mp h
    rcases hc with rfl | rfl
    · simpa [successor] using hdigits
    · simpa [successor] using ih hdigits

theorem length_successor (h : ∀ c ∈ digits, c = '0' ∨ c = '1') :
    (successor digits).length = if '0' ∈ digits then digits.length else digits.length + 1 := by
  induction digits with
  | nil => rfl
  | cons c digits ih =>
    obtain ⟨hc, hdigits⟩ := List.forall_mem_cons.mp h
    rcases hc with rfl | rfl
    · simp [successor]
    · simp only [successor, if_pos, List.length_cons, ih hdigits, List.mem_cons]
      simp [apply_ite (· + 1)]

theorem value_successor (h : ∀ c ∈ digits, c = '0' ∨ c = '1') :
    Nat.ofDigitChars 2 (successor digits).reverse 0 =
      Nat.ofDigitChars 2 digits.reverse 0 + 1 := by
  induction digits with
  | nil => rfl
  | cons c digits ih =>
    obtain ⟨hc, hdigits⟩ := List.forall_mem_cons.mp h
    rcases hc with rfl | rfl
    · simp [successor, Nat.ofDigitChars_append, Nat.ofDigitChars_cons]
    · simp [successor, Nat.ofDigitChars_append, Nat.ofDigitChars_cons, ih hdigits]
      omega

theorem incrementing_walks {c : Char} (h : c = '0' ∨ c = '1') :
    incrementing.Passes "right".toList .right id c := by
  rcases h with rfl | rfl <;> exact ⟨_, rfl, rfl, rfl, rfl⟩

theorem incrementing_carries : incrementing.Passes "carry".toList .left (fun _ => '0') '1' :=
  ⟨_, rfl, rfl, rfl, rfl⟩

theorem halts_carry (h : ∀ c ∈ digits, c = '0' ∨ c = '1') (behind : List Char) (steps : Nat) :
    ∃ k stop, k ≤ digits.length + 1 ∧
      Machine.Halts ⟨incrementing, .facing .left digits behind, "carry".toList, steps⟩ k stop ∧
      stop.state = "done".toList ∧ stop.tape.cells = (successor digits).reverse ++ behind := by
  -- By induction on the digits left of the head: a one passes the carry on, all else takes it.
  induction digits generalizing behind steps with
  | nil =>
    have hlast : Machine.Runs ⟨incrementing, .facing .left [] behind, "carry".toList, steps⟩ 1
        ⟨incrementing, .facing .left ['1'] behind, "done".toList, steps + 1⟩ := .step rfl rfl rfl
    exact ⟨1, _, Nat.le_refl _, ⟨hlast, rfl⟩, rfl, rfl⟩
  | cons c digits ih =>
    obtain ⟨hc, hdigits⟩ := List.forall_mem_cons.mp h
    rcases hc with rfl | rfl
    · have hlast : Machine.Runs
          ⟨incrementing, .facing .left ('0' :: digits) behind, "carry".toList, steps⟩ 1
          ⟨incrementing, .facing .left ('1' :: digits) behind, "done".toList, steps + 1⟩ :=
        .step rfl rfl rfl
      refine ⟨1, _, by omega, ⟨hlast, rfl⟩, rfl, ?_⟩
      simp [successor, Tape.cells, Tape.facing]
    · have hfirst := incrementing_carries.step (by decide) (by decide) digits behind steps
      obtain ⟨k, stop, hk, hhalts, hstate, hcells⟩ := ih hdigits ('0' :: behind) (steps + 1)
      refine ⟨1 + k, stop, ?_, ⟨hfirst.trans hhalts.runs, hhalts.halted⟩, hstate, ?_⟩
      · rw [List.length_cons]
        omega
      · rw [hcells]
        simp [successor]

theorem runs_walk {w : List Char} (hw : ∀ c ∈ w, c = '0' ∨ c = '1') :
    Machine.Runs ⟨incrementing, .facing .right w [], "right".toList, 0⟩ (w.length + 1)
      ⟨incrementing, .facing .left w.reverse [Glyph.blank], "carry".toList, w.length + 1⟩ := by
  have hsweep := Machine.Runs.sweep (fun c hc => incrementing_walks (hw c hc)) (by decide)
    (by decide) [] [] 0
  rw [List.map_id, List.append_nil, List.append_nil, Nat.zero_add] at hsweep
  exact hsweep.trans (.step rfl rfl rfl)

/-- The program of the sample adds one to every binary number; without digits, the number is zero. -/
theorem binaryIncrement_increments {w : List Char} (hw : ∀ c ∈ w, c = '0' ∨ c = '1') :
    ∃ k stop z, k ≤ 2 * w.length + 3 ∧ HaltsOn binaryIncrement w k stop ∧
      stop.state = "done".toList ∧ stop.tape.cells = z ++ [Glyph.blank] ∧
      z.length = (if '0' ∈ w then w.length else w.length + 1) ∧
      (∀ c ∈ z, c = '0' ∨ c = '1') ∧
        Nat.ofDigitChars 2 z 0 = Nat.ofDigitChars 2 w 0 + 1 := by
  have halphabet : ∀ c ∈ w, c ∈ incrementing.alphabet := by
    intro c hc
    rcases hw c hc with rfl | rfl <;> decide
  have hdigits : ∀ c ∈ w.reverse, c = '0' ∨ c = '1' := fun c hc => hw c (List.mem_reverse.mp hc)
  obtain ⟨k, stop, hk, hhalts, hstate, hcells⟩ :=
    halts_carry hdigits [Glyph.blank] (w.length + 1)
  have hwhole : Machine.Halts ⟨incrementing, .facing .right w [], "right".toList, 0⟩
      (w.length + 1 + k) stop := ⟨(runs_walk hw).trans hhalts.runs, hhalts.halted⟩
  refine ⟨w.length + 1 + k, stop, (successor w.reverse).reverse, ?_,
    .of_halts compile_binaryIncrement halphabet hwhole, hstate, hcells, ?_, ?_, ?_⟩
  · rw [List.length_reverse] at hk
    omega
  · simpa using length_successor hdigits
  · intro c hc
    exact successor_bits hdigits c (List.mem_reverse.mp hc)
  · simpa using value_successor hdigits

/-- The number three: there is no zero to take the carry. -/
theorem binaryIncrement_increments_three : (∀ c ∈ ['1', '1'], c = '0' ∨ c = '1') ∧
    ∃ k stop z, k ≤ 7 ∧ HaltsOn binaryIncrement ['1', '1'] k stop ∧
      stop.state = "done".toList ∧ stop.tape.cells = z ++ [Glyph.blank] ∧ z.length = 3 ∧
      (∀ c ∈ z, c = '0' ∨ c = '1') ∧ Nat.ofDigitChars 2 z 0 = 4 :=
  have hw : ∀ c ∈ ['1', '1'], c = '0' ∨ c = '1' := by simp
  ⟨hw, binaryIncrement_increments hw⟩

end TapeMachine.Samples
