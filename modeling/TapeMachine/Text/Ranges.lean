/-!
# Ranges of code points

A class of characters is a list of closed ranges in ascending order. A search stops at the first
range that begins beyond the code point.
-/
namespace TapeMachine.Text

/-- Whether `n` lies in one of the ranges, which ascend. -/
def inRanges (n : Nat) : List (Nat × Nat) → Bool
  | [] => false
  | (first, last) :: rest => if n < first then false else n ≤ last || inRanges n rest

end TapeMachine.Text
