import TapeMachine.Proofs.Engine.Sweeps
import TapeMachine.Samples
/-!
# The programs of the samples

What the sources of the samples are compiled to. What a sample does on a tape is told from the rules
of its program (`HaltsOn.of_halts`).
-/
namespace TapeMachine.Samples

/-- Two of the states go along the digits; the third halts. -/
def incrementing : Program :=
  let right := "right".toList
  let carry := "carry".toList
  let done := "done".toList
  { table := ⟨[
      ⟨right, [⟨right, .char '0', right, .any, .right⟩, ⟨right, .char '1', right, .any, .right⟩,
        ⟨right, .char Glyph.blank, carry, .any, .left⟩]⟩,
      ⟨carry, [⟨carry, .char '1', carry, .char '0', .left⟩,
        ⟨carry, .char '0', done, .char '1', .stay⟩,
        ⟨carry, .char Glyph.blank, done, .char '1', .stay⟩]⟩,
      ⟨done, []⟩]⟩
    initial := right
    halts := [Name.halt, done]
    alphabet := ['0', '1', Glyph.blank]
    tape := Tape.ofList ['1', '0', '1', '1'] }

/-- Two of the states go along the ones, the third takes the last of them away. -/
def adding : Program :=
  let scan := "scan".toList
  let last := "end".toList
  let erase := "erase".toList
  let done := "done".toList
  { table := ⟨[
      ⟨scan, [⟨scan, .char '1', scan, .any, .right⟩, ⟨scan, .char '0', last, .char '1', .right⟩]⟩,
      ⟨last, [⟨last, .char '1', last, .any, .right⟩,
        ⟨last, .char Glyph.blank, erase, .any, .left⟩]⟩,
      ⟨erase, [⟨erase, .char '1', done, .char Glyph.blank, .stay⟩]⟩,
      ⟨done, []⟩]⟩
    initial := scan
    halts := [Name.halt, done]
    alphabet := ['1', '0', Glyph.blank]
    tape := Tape.ofList ['1', '1', '1', '0', '1', '1'] }

/-- The state of the block goes along the bits, and the state inside it goes back. -/
def flipping : Program :=
  let flip := "flip".toList
  let rewind := "flip.rewind".toList
  let done := "done".toList
  { table := ⟨[
      ⟨done, []⟩,
      ⟨flip, [⟨flip, .char '0', flip, .char '1', .right⟩, ⟨flip, .char '1', flip, .char '0', .right⟩,
        ⟨flip, .char Glyph.blank, rewind, .any, .left⟩]⟩,
      ⟨rewind, [⟨rewind, .char '0', rewind, .any, .left⟩, ⟨rewind, .char '1', rewind, .any, .left⟩,
        ⟨rewind, .char Glyph.blank, done, .any, .right⟩]⟩]⟩
    initial := flip
    halts := [Name.halt, done]
    alphabet := ['0', '1', Glyph.blank]
    tape := Tape.ofList ['0', '1', '1', '0'] }

theorem compile_binaryIncrement : (compile binaryIncrement).program = some incrementing := by
  decide +kernel

theorem compile_unaryAddition : (compile unaryAddition).program = some adding := by
  decide +kernel

theorem compile_bitFlipper : (compile bitFlipper).program = some flipping := by
  decide +kernel

/-- The program of a source, begun on a tape of this content, takes exactly `k` steps and is then, in
a state that halts for the first time, as `stop`; every batch of at least so many steps ends there. -/
def HaltsOn (source content : List Char) (k : Nat) (stop : Machine) : Prop :=
  ∃ p start, (compile source).program = some p ∧
    (Machine.ofProgram p).setTape content = .ok start ∧ start.Halts k stop ∧
      ∀ budget, k ≤ budget → (start.execute (.step budget)).machine = stop

theorem HaltsOn.of_halts {source content : List Char} {p : Program} {k : Nat} {stop : Machine}
    (hp : (compile source).program = some p) (hcontent : ∀ c ∈ content, c ∈ p.alphabet)
    (h : Machine.Halts ⟨p, .facing .right content [], p.initial, 0⟩ k stop) :
    HaltsOn source content k stop := by
  rw [← Tape.ofList_eq_facing] at h
  refine ⟨p, _, hp, ?_, h, fun budget hk => h.execute hk⟩
  have hallowed : content.find? (!(Machine.ofProgram p).allows ·) = none := by
    rw [List.find?_eq_none]
    intro c hc
    simpa [Machine.allows, Machine.ofProgram] using fun _ => hcontent c hc
  rw [Machine.setTape, hallowed]
  rfl

end TapeMachine.Samples
