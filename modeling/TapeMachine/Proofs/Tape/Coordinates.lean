import TapeMachine.Proofs.Tape.Row
/-!
# The coordinates of a tape

A tape is charted by a map over the integers, as a row that grows is. So the two answer alike, and
hold what the map has between the bounds of what was addressed (`run_eq_chart`).
-/
namespace TapeMachine

/-- The contents that an access of a tape answers with, and the tape after it. -/
def Tape.perform (access : Access) (t : Tape) : List Char × Tape :=
  match access with
  | .get offset => ([(t.get offset).1], (t.get offset).2)
  | .set offset symbol => ([], t.set offset symbol)
  | .read => ([t.read.1], t.read.2)
  | .write symbol => ([], t.write symbol)
  | .move d => ([], t.move d)
  | .setHead index => ([], t.setHead index)
  | .peek => ([t.cell], t)
  | .window radius => (t.window radius, t)

namespace Tape

/-- The map has around its head what the tape shows, and its bounds are the ends of the row. -/
structure Charted (t : Tape) (c : Chart) : Prop where
  cells : ∀ i, t.view i = c.cells (c.head + i)
  left : (t.left.length : Int) = c.head - c.lo
  right : (t.right.length : Int) = c.hi - c.head

private theorem length_padded (n : Nat) (cells : List Char) :
    (padded n cells).length = max cells.length n := by
  simp only [padded, List.length_append, List.length_replicate]
  omega

private theorem getD_set {n : Nat} {cells : List Char} (hn : n < cells.length) (x : Char)
    (k : Nat) :
    (cells.set n x).getD k Glyph.blank = if k = n then x else cells.getD k Glyph.blank := by
  simp only [List.getD_eq_getElem?_getD, List.getElem?_set, hn, if_true]
  by_cases hk : k = n
  · simp [hk]
  · simp [hk, Ne.symm hk]

theorem view_put {t : Tape} {offset : Int} (hlo : -t.left.length ≤ offset)
    (hhi : offset ≤ t.right.length) (x : Char) (i : Int) :
    (t.put offset x).view i = if i = offset then x else t.view i := by
  rcases offset with (_ | n) | n
  · rcases i with (_ | k) | k <;>
      simp only [put, view, reduceCtorEq, Int.ofNat.injEq, Nat.add_eq_zero_iff, and_false,
        Nat.succ_ne_self, if_true, if_false]
  · have hn : n < t.right.length := by simp only [Int.ofNat_eq_natCast] at hhi; omega
    rcases i with (_ | k) | k <;>
      simp only [put, view, getD_set hn, reduceCtorEq, Int.ofNat.injEq, Nat.add_right_cancel_iff,
        if_false]
  · have hn : n < t.left.length := by omega
    rcases i with (_ | k) | k <;>
      simp only [put, view, getD_set hn, reduceCtorEq, Int.negSucc.injEq, if_false]

namespace Charted

variable {t : Tape} {c : Chart}

theorem extend (h : t.Charted c) (offset : Int) :
    (t.extend offset).Charted (c.address (c.head + offset)) := by
  obtain ⟨hcells, hleft, hright⟩ := h
  refine ⟨?_, ?_, ?_⟩
  · intro i
    rw [view_extend, hcells]
    rfl
  · rcases offset with n | n
    · simp only [Tape.extend, Chart.address, Int.ofNat_eq_natCast]
      omega
    · simp only [Tape.extend, Chart.address, length_padded]
      omega
  · rcases offset with n | n
    · simp only [Tape.extend, Chart.address, length_padded, Int.ofNat_eq_natCast]
      omega
    · simp only [Tape.extend, Chart.address]
      omega

theorem put (h : t.Charted c) (offset : Int) (hlo : c.lo ≤ c.head + offset)
    (hhi : c.head + offset ≤ c.hi) (x : Char) :
    (t.put offset x).Charted
      { c with cells := Function.update c.cells (c.head + offset) x } := by
  obtain ⟨hcells, hleft, hright⟩ := h
  have hrow : (t.put offset x).left.length = t.left.length ∧
      (t.put offset x).right.length = t.right.length := by
    rcases offset with (_ | n) | n <;> simp [Tape.put]
  refine ⟨?_, ?_, ?_⟩
  · intro i
    change _ = Function.update c.cells (c.head + offset) x (c.head + i)
    rw [view_put (by omega) (by omega), Function.update_apply, hcells]
    simp only [Int.add_right_inj]
  · rw [hrow.1, hleft]
  · rw [hrow.2, hright]

theorem set (h : t.Charted c) (offset : Int) (symbol : Symbol) :
    (t.set offset symbol).Charted
      ((c.address (c.head + offset)).store (c.head + offset) symbol) := by
  have hput := (h.extend offset).put offset (Int.min_le_right _ _)
    (Int.le_max_right _ _) (symbol.writtenOver (t.view offset))
  cases symbol with
  | char x => exact hput
  | any =>
    -- The wildcard puts the old content back, so the map stays as it is.
    have hold : Function.update c.cells (c.head + offset) (t.view offset) = c.cells := by
      rw [h.cells offset, Function.update_eq_self]
    simp only [Chart.address, Symbol.writtenOver, hold] at hput
    exact hput

theorem write (h : t.Charted c) (symbol : Symbol) :
    (t.write symbol).Charted ((c.address c.head).store c.head symbol) := by
  have hset := h.set 0 symbol
  have hright : padded 0 t.right = t.right := by
    simp only [padded, Nat.zero_sub, List.replicate_zero, List.append_nil]
  have hwrite : t.set 0 symbol = t.write symbol := by
    change ({ left := t.left, cell := _, right := padded 0 t.right } : Tape) = _
    rw [hright]
    rfl
  rwa [Int.add_zero, hwrite] at hset

theorem move (h : t.Charted c) (d : Direction) :
    (t.move d).Charted (c.goTo (c.head + d.shift)) := by
  obtain ⟨hcells, hleft, hright⟩ := h
  refine ⟨?_, ?_, ?_⟩
  · intro i
    rw [view_move, hcells, Int.add_comm i, ← Int.add_assoc]
    rfl
  · cases d <;>
      simp only [Tape.move, Chart.goTo, Chart.address, Direction.shift, List.length_tail,
        List.length_cons] <;> omega
  · cases d <;>
      simp only [Tape.move, Chart.goTo, Chart.address, Direction.shift, List.length_tail,
        List.length_cons] <;> omega

theorem lo_le_head (h : t.Charted c) : c.lo ≤ c.head := by
  have hleft := h.left
  omega

theorem head_le_hi (h : t.Charted c) : c.head ≤ c.hi := by
  have hright := h.right
  omega

theorem travel (h : t.Charted c) (d : Direction) (n : Nat) :
    (t.travel d n).Charted (c.goTo (c.head + n * d.shift)) := by
  -- By induction on the number of cells travelled; the bounds follow the head.
  induction n generalizing t c with
  | zero =>
    have hplace : c.head + (0 : Nat) * d.shift = c.head := by simp
    rw [hplace, Chart.goTo_head h.lo_le_head h.head_le_hi]
    exact h
  | succ n ih =>
    rw [← Chart.goTo_goTo h.lo_le_head h.head_le_hi]
    exact ih (h.move d)

theorem setHead (h : t.Charted c) (index : Int) :
    (t.setHead index).Charted (c.goTo (c.lo + index)) := by
  have hhead : (t.head : Int) = c.head - c.lo := h.left
  rw [Tape.setHead]
  split
  next n hn =>
    have hplace : c.head + n * Direction.right.shift = c.lo + index := by
      simp only [Direction.shift, Int.ofNat_eq_natCast] at hn ⊢
      omega
    rw [← hplace]
    exact h.travel .right n
  next n hn =>
    have hplace : c.head + (n + 1 : Nat) * Direction.left.shift = c.lo + index := by
      simp only [Direction.shift] at hn ⊢
      omega
    rw [← hplace]
    exact h.travel .left (n + 1)

theorem cell (h : t.Charted c) : t.cell = c.cells c.head := by
  have hcell := h.cells 0
  rwa [Int.add_zero] at hcell

theorem perform (h : t.Charted c) (access : Access) :
    (t.perform access).2.Charted (c.perform access).2 := by
  cases access with
  | get offset => exact h.extend offset
  | set offset symbol => exact h.set offset symbol
  | read =>
    have hread := h.extend 0
    rwa [Int.add_zero] at hread
  | write symbol => exact h.write symbol
  | move d =>
    cases d with
    | left => exact h.move .left
    | right => exact h.move .right
    | stay => exact h
  | setHead index => exact h.setHead index
  | peek => exact h
  | window radius => exact h

theorem length_cells (h : t.Charted c) : (t.cells.length : Int) = c.hi - c.lo + 1 := by
  have hleft := h.left
  have hright := h.right
  rw [Tape.length_cells, size]
  omega

theorem getElem?_cells (h : t.Charted c) {k : Nat} (hk : k < t.cells.length) :
    t.cells[k]? = some (c.cells (c.lo + k)) := by
  have hhead : (t.head : Int) = c.head - c.lo := h.left
  have hview := h.cells (k - t.head)
  rw [view_eq_seen, seen, show (t.head : Int) + (k - t.head) = k by omega,
    if_pos (Int.natCast_nonneg k), Int.toNat_natCast, List.getD_eq_getElem _ _ hk,
    show c.head + ((k : Int) - t.head) = c.lo + k by omega] at hview
  rw [List.getElem?_eq_getElem hk, hview]

theorem same_row (h : t.Charted c) {r : Row} (hr : r.Charted c) :
    t.cells = r.cells ∧ t.head = r.head := by
  have hlength : t.cells.length = r.cells.length := by
    have ht := h.length_cells
    have hlength := hr.length
    omega
  have hhead : (t.head : Int) = c.head - c.lo := h.left
  refine ⟨List.ext_getElem? ?_, by have hplace := hr.head; omega⟩
  intro k
  by_cases hk : k < t.cells.length
  · rw [h.getElem?_cells hk, hr.getElem?_cells (hlength ▸ hk)]
  · rw [List.getElem?_eq_none (Nat.not_lt.mp hk),
      List.getElem?_eq_none (hlength ▸ Nat.not_lt.mp hk)]

theorem window_eq (h : t.Charted c) {r : Row} (hr : r.Charted c) (radius : UInt64) :
    t.window radius = r.window radius := by
  obtain ⟨hcells, hhead⟩ := h.same_row hr
  have hview : ∀ place : Int, t.view (place - t.head) = r.lookAt place := by
    intro place
    have hplace : (t.head : Int) = c.head - c.lo := h.left
    rw [h.cells, hr.cells, show c.head + (place - t.head) = c.lo + place by omega]
  rw [Tape.window, Row.window, hhead]
  apply List.map_congr_left
  intro k _
  rw [← hhead, hview]

theorem answer_eq (h : t.Charted c) {r : Row} (hr : r.Charted c) (access : Access) :
    (t.perform access).1 = (r.perform access).1 := by
  cases access with
  | get offset => exact congrArg ([·]) ((h.cells offset).trans (hr.get offset).1.symm)
  | set offset symbol => rfl
  | read =>
    have hread := (hr.get 0).1
    rw [Int.add_zero] at hread
    exact congrArg ([·]) (h.cell.trans hread.symm)
  | write symbol => rfl
  | move d => rfl
  | setHead index => rfl
  | peek => exact congrArg ([·]) (h.cell.trans hr.lookAt_head.symm)
  | window radius => rw [Tape.perform, Row.perform, h.window_eq hr]

theorem run_eq (h : t.Charted c) {r : Row} (hr : r.Charted c) (accesses : List Access) :
    (Access.run Tape.perform accesses t).1 = (Access.run Row.perform accesses r).1 ∧
      (Access.run Tape.perform accesses t).2.Charted (Access.run Chart.perform accesses c).2 := by
  -- By induction on the accesses, a tape and a row with the same map answer alike and keep it.
  induction accesses generalizing t c r with
  | nil => exact ⟨rfl, h⟩
  | cons access rest ih =>
    obtain ⟨hanswers, hlast⟩ := ih (h.perform access) (hr.perform access)
    rw [Access.run_cons, Access.run_cons]
    exact ⟨congrArg₂ List.cons (h.answer_eq hr access) hanswers, hlast⟩

end Charted

end Tape

end TapeMachine
