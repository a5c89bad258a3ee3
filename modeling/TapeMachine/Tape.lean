import TapeMachine.Transition
/-!
# The tape

A tape is a row of cells with a head on one of them, and is blank without end on both sides of the
row. A cell is addressed by its offset from the head; addressing a cell beyond the row adds blanks
up to that cell. What a tape holds is its `view`, which growing does not change (`view_extend`).
-/
namespace TapeMachine

def signedWord (n : Int) : Int := n.bmod UInt64.size

theorem signedWord_of_fits {n : Int} (hlo : -(UInt64.size / 2 : Nat) ≤ n)
    (hhi : n < (UInt64.size / 2 : Nat)) : signedWord n = n := by
  have hhalf : (UInt64.size / 2 : Nat) = 9223372036854775808 := rfl
  rw [hhalf] at hlo hhi
  apply Int.bmod_eq_of_le_mul_two
  · change -(18446744073709551616 : Int) ≤ n * 2
    omega
  · change n * 2 < (18446744073709551616 : Int)
    omega

/-- The cells on both sides of the head, nearest first, and the cell under it. -/
structure Tape where
  left : List Char
  cell : Char
  right : List Char
  deriving DecidableEq

namespace Tape

def ofList : List Char → Tape
  | [] => ⟨[], Glyph.blank, []⟩
  | c :: rest => ⟨[], c, rest⟩

def cells (t : Tape) : List Char := t.left.reverse ++ t.cell :: t.right

/-- The place of the head in the row, counted from zero. -/
def head (t : Tape) : Nat := t.left.length

def size (t : Tape) : Nat := t.left.length + 1 + t.right.length

/-- The content at an offset from the head; blank outside the row. -/
def view (t : Tape) : Int → Char
  | .ofNat 0 => t.cell
  | .ofNat (n + 1) => t.right.getD n Glyph.blank
  | .negSucc n => t.left.getD n Glyph.blank

def padded (n : Nat) (cells : List Char) : List Char :=
  cells ++ List.replicate (n - cells.length) Glyph.blank

def extend (offset : Int) (t : Tape) : Tape :=
  match offset with
  | .ofNat n => { t with right := padded n t.right }
  | .negSucc n => { t with left := padded (n + 1) t.left }

def put (offset : Int) (c : Char) (t : Tape) : Tape :=
  match offset with
  | .ofNat 0 => { t with cell := c }
  | .ofNat (n + 1) => { t with right := t.right.set n c }
  | .negSucc n => { t with left := t.left.set n c }

def get (offset : Int) (t : Tape) : Char × Tape := (t.view offset, t.extend offset)

def read (t : Tape) : Char × Tape := t.get 0

def set (offset : Int) (symbol : Symbol) (t : Tape) : Tape :=
  (t.extend offset).put offset (symbol.writtenOver (t.view offset))

def write (symbol : Symbol) (t : Tape) : Tape := { t with cell := symbol.writtenOver t.cell }

def move (d : Direction) (t : Tape) : Tape :=
  match d with
  | .left => ⟨t.left.tail, t.left.headD Glyph.blank, t.cell :: t.right⟩
  | .right => ⟨t.cell :: t.left, t.right.headD Glyph.blank, t.right.tail⟩
  | .stay => t

def travel (d : Direction) : Nat → Tape → Tape
  | 0, t => t
  | n + 1, t => travel d n (t.move d)

/-- Moves the head to a place of the row; a negative place lies left of its first cell. -/
def setHead (index : Int) (t : Tape) : Tape :=
  match index - t.head with
  | .ofNat n => t.travel .right n
  | .negSucc n => t.travel .left (n + 1)

/-- The contents from `radius` places left of the head to `radius` places right of it; the row stays
as it is. The places are computed as signed words, so a radius may wrap around. -/
def window (radius : UInt64) (t : Tape) : List Char :=
  let center := signedWord t.head
  let first := signedWord (center - signedWord radius.toNat)
  let last := signedWord (center + signedWord radius.toNat)
  (List.range (last + 1 - first).toNat).map fun (k : Nat) => t.view (first + k - t.head)

theorem length_cells (t : Tape) : t.cells.length = t.size := by
  simp only [cells, size, List.length_append, List.length_reverse, List.length_cons]
  omega

theorem cells_ofList {content : List Char} (h : content ≠ []) :
    (ofList content).cells = content := by
  cases content with
  | nil => exact (h rfl).elim
  | cons c rest => rfl

theorem getD_padded (n k : Nat) (cells : List Char) :
    (padded n cells).getD k Glyph.blank = cells.getD k Glyph.blank := by
  simp only [padded, List.getD_eq_getElem?_getD, List.getElem?_append, List.getElem?_replicate]
  split
  · rfl
  next h =>
    rw [List.getElem?_eq_none (by omega)]
    split <;> rfl

@[simp] theorem view_extend (offset i : Int) (t : Tape) : (t.extend offset).view i = t.view i := by
  rcases offset with n | n <;> rcases i with (_ | k) | k <;>
    simp only [extend, view, getD_padded]

/-- The head always stands on a cell, so reading under it adds none. -/
theorem read_eq (t : Tape) : t.read = (t.cell, t) := by
  have hright : padded 0 t.right = t.right := by
    simp only [padded, Nat.zero_sub, List.replicate_zero, List.append_nil]
  change (t.cell, { t with right := padded 0 t.right }) = (t.cell, t)
  rw [hright]

theorem view_move_left (t : Tape) (i : Int) : (t.move .left).view i = t.view (i - 1) := by
  obtain ⟨left, cell, right⟩ := t
  rcases i with (_ | k) | k
  · cases left <;> rfl
  · rw [show Int.ofNat (k + 1) - 1 = Int.ofNat k by simp only [Int.ofNat_eq_natCast]; omega]
    cases k <;> rfl
  · rw [show Int.negSucc k - 1 = Int.negSucc (k + 1) by omega]
    cases left <;> rfl

theorem view_move_right (t : Tape) (i : Int) : (t.move .right).view i = t.view (i + 1) := by
  obtain ⟨left, cell, right⟩ := t
  rcases i with (_ | k) | k
  · cases right <;> rfl
  · cases right <;> rfl
  · cases k with
    | zero => rfl
    | succ k =>
      rw [show Int.negSucc (k + 1) + 1 = Int.negSucc k by omega]
      rfl

theorem view_write (symbol : Symbol) (t : Tape) (i : Int) :
    (t.write symbol).view i = if i = 0 then symbol.writtenOver (t.view 0) else t.view i := by
  rcases i with (_ | k) | k
  · rfl
  · rw [if_neg (by simp only [Int.ofNat_eq_natCast]; omega)]
    rfl
  · rw [if_neg (by omega)]
    rfl

end Tape

end TapeMachine
