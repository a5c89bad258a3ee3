/-!
# Bytes shown as text

Bytes that encode no character are shown too: a byte that begins none, and as many bytes of one that
breaks off as there are, by one replacement character.
-/
namespace TapeMachine.Text

def replacement : Char := '\uFFFD'

/-- A character whose last bytes are still to come, each with the range that it must be in. -/
structure Partial where
  value : Nat
  wanted : List (Nat × Nat)

def Partial.begin? (b : Nat) : Option Partial :=
  let next := (0x80, 0xBF)
  if b < 0x80 then some ⟨b, []⟩
  else if b < 0xC2 then none
  else if b < 0xE0 then some ⟨b - 0xC0, [next]⟩
  else if b < 0xF0 then
    -- Shorter encodings and surrogates are ruled out by the second byte.
    some ⟨b - 0xE0, [(if b = 0xE0 then 0xA0 else 0x80, if b = 0xED then 0x9F else 0xBF), next]⟩
  else if b < 0xF5 then
    some ⟨b - 0xF0,
      [(if b = 0xF0 then 0x90 else 0x80, if b = 0xF4 then 0x8F else 0xBF), next, next]⟩
  else none

def Partial.settle : Option Partial → List Char × Option Partial
  | none => ([replacement], none)
  | some ⟨value, []⟩ => ([Char.ofNat value], none)
  | some pending => ([], some pending)

def Partial.take (b : Nat) : Option Partial → List Char × Option Partial
  | some ⟨value, (least, greatest) :: wanted⟩ =>
    if least ≤ b ∧ b ≤ greatest then settle (some ⟨64 * value + (b - 0x80), wanted⟩)
    else
      let (shown, pending) := settle (begin? b)
      (replacement :: shown, pending)
  | _ => settle (begin? b)

def lossyAfter : Option Partial → List UInt8 → List Char
  | none, [] => []
  | some _, [] => [replacement]
  | pending, b :: rest =>
    let (shown, pending) := Partial.take b.toNat pending
    shown ++ lossyAfter pending rest

def lossy (bytes : List UInt8) : List Char := lossyAfter none bytes

example : lossy ("aé€𝄞".toList.flatMap String.utf8EncodeChar) = "aé€𝄞".toList := by decide

/-- Two bytes of three, then one that begins a character; a surrogate; the end within a character. -/
example : lossy [0xE2, 0x82, 0x61, 0xED, 0xA0, 0x80, 0xC3] =
    ['\uFFFD', 'a', '\uFFFD', '\uFFFD', '\uFFFD', '\uFFFD'] := by decide

end TapeMachine.Text
