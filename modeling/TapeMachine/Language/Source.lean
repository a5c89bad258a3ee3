/-!
# Places in a source

A source is a list of characters. A mark is a place in it: the number of bytes before it in UTF-8,
the number of its line and a column. Between two characters the column counts the characters of
the line so far, at a character it counts that character too.
-/
namespace TapeMachine

structure Mark where
  offset : Nat
  line : Nat
  column : Nat
  deriving DecidableEq

namespace Mark

def origin : Mark := ⟨0, 1, 0⟩

def here (gap : Mark) : Mark := { gap with column := gap.column + 1 }

def past (gap : Mark) (c : Char) : Mark :=
  if c = '\n' then ⟨gap.offset + 1, gap.line + 1, 0⟩
  else ⟨gap.offset + c.utf8Size, gap.line, gap.column + 1⟩

def locate (gap : Mark) : List Char → List (Mark × Char)
  | [] => []
  | c :: rest => (gap.here, c) :: locate (gap.past c) rest

def after (gap : Mark) (source : List Char) : Mark := source.foldl past gap

end Mark

def byteLength : List Char → Nat
  | [] => 0
  | c :: rest => c.utf8Size + byteLength rest

theorem byteLength_append (front back : List Char) :
    byteLength (front ++ back) = byteLength front + byteLength back := by
  induction front with
  | nil => rw [List.nil_append, byteLength, Nat.zero_add]
  | cons c rest ih => rw [List.cons_append, byteLength, byteLength, ih, Nat.add_assoc]

namespace Mark

theorem after_append (gap : Mark) (front back : List Char) :
    gap.after (front ++ back) = (gap.after front).after back := List.foldl_append

theorem locate_append (gap : Mark) (front back : List Char) :
    gap.locate (front ++ back) = gap.locate front ++ (gap.after front).locate back := by
  induction front generalizing gap with
  | nil => rfl
  | cons c rest ih => exact congrArg ((gap.here, c) :: ·) (ih (gap.past c))

theorem offset_past (gap : Mark) (c : Char) : (gap.past c).offset = gap.offset + c.utf8Size := by
  unfold past
  split
  next h => subst h; rfl
  next => rfl

theorem offset_after (gap : Mark) (source : List Char) :
    (gap.after source).offset = gap.offset + byteLength source := by
  induction source generalizing gap with
  | nil => rfl
  | cons c rest ih =>
    rw [after, List.foldl_cons, ← after, ih, offset_past, byteLength, Nat.add_assoc]

end Mark

end TapeMachine
