import TapeMachine.Language.Source
/-!
# Excerpts of a source

An excerpt shows the line of a place with its number, a mark under the column and a message. It is
printed by a library that knows the text before and after the place and the message; the library is
given as a `Printer`.
-/
namespace TapeMachine.Excerpt

class Printer where
  print : List Char → List Char → String → String

/-- The text before and after a place given in bytes, unless it lies inside a character. -/
def splitAtByte : Nat → List Char → Option (List Char × List Char)
  | 0, rest => some ([], rest)
  | _ + 1, [] => none
  | n + 1, c :: rest =>
    if c.utf8Size ≤ n + 1 then
      (splitAtByte (n + 1 - c.utf8Size) rest).map fun (before, after) => (c :: before, after)
    else none

theorem splitAtByte_byteLength (before after : List Char) :
    splitAtByte (byteLength before) (before ++ after) = some (before, after) := by
  induction before with
  | nil => cases after <;> rfl
  | cons c rest ih =>
    have hc := c.utf8Size_pos
    obtain ⟨n, hn⟩ : ∃ n, byteLength (c :: rest) = n + 1 :=
      ⟨byteLength (c :: rest) - 1, by rw [byteLength]; omega⟩
    have hrest : n + 1 - c.utf8Size = byteLength rest := by rw [← hn, byteLength]; omega
    rw [hn, List.cons_append, splitAtByte, if_pos (by rw [← hn, byteLength]; omega), hrest, ih]
    rfl

def at? [Printer] (source : List Char) (offset : Nat) (message : String) : Option String :=
  (splitAtByte offset source).map fun (before, after) => Printer.print before after message

end TapeMachine.Excerpt
