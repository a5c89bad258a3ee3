import TapeMachine.Proofs.Tape.Chart
/-!
# Rows that grow

A tape can be kept as a row of cells with the place of the head in it. A place beyond the row is
reached by adding one blank after another, and a blank on the left shifts the head and all places by
one. Whatever is asked of it, such a row is charted by the map over the integers (`Charted.perform`).
-/
namespace TapeMachine

/-- A row of cells and the place of the head in it. -/
structure Row where
  cells : List Char
  head : Nat
  deriving DecidableEq

namespace Row

/-- A content with the head on its first cell; there is always a cell. -/
def ofList (content : List Char) : Row :=
  ⟨if content = [] then [Glyph.blank] else content, 0⟩

def lookAt (place : Int) (r : Row) : Char :=
  if place < 0 then Glyph.blank else r.cells.getD place.toNat Glyph.blank

def pad (place : Nat) (r : Row) : Row :=
  if place < r.cells.length then r
  else pad place { r with cells := r.cells ++ [Glyph.blank] }
termination_by place + 1 - r.cells.length
decreasing_by
  simp only [List.length_append, List.length_singleton]
  omega

/-- Adds blanks until there is a cell at a place; where the cell then is, and the row. -/
def ensure (place : Int) (r : Row) : Nat × Row :=
  if place < 0 then ensure (place + 1) ⟨Glyph.blank :: r.cells, r.head + 1⟩
  else (place.toNat, r.pad place.toNat)
termination_by (-place).toNat
decreasing_by omega

def get (offset : Int) (r : Row) : Char × Row :=
  let (k, r) := r.ensure (r.head + offset)
  (r.cells.getD k Glyph.blank, r)

def set (offset : Int) (symbol : Symbol) (r : Row) : Row :=
  let (k, r) := r.ensure (r.head + offset)
  match symbol with
  | .any => r
  | .char c => { r with cells := r.cells.set k c }

def setHead (place : Int) (r : Row) : Row :=
  let (k, r) := r.ensure place
  { r with head := k }

def move (d : Direction) (r : Row) : Row :=
  match d with
  | .left => r.setHead (r.head - 1)
  | .right => r.setHead (r.head + 1)
  | .stay => r

def window (radius : UInt64) (r : Row) : List Char :=
  let center := signedWord r.head
  let first := signedWord (center - signedWord radius.toNat)
  let last := signedWord (center + signedWord radius.toNat)
  (List.range (last + 1 - first).toNat).map fun (k : Nat) => r.lookAt (first + k)

/-- The contents that an access of a row answers with, and the row after it. -/
def perform (access : Access) (r : Row) : List Char × Row :=
  match access with
  | .get offset => ([(r.get offset).1], (r.get offset).2)
  | .set offset symbol => ([], r.set offset symbol)
  | .read => ([(r.get 0).1], (r.get 0).2)
  | .write symbol => ([], r.set 0 symbol)
  | .move d => ([], r.move d)
  | .setHead place => ([], r.setHead place)
  | .peek => ([r.lookAt r.head], r)
  | .window radius => (r.window radius, r)

theorem lookAt_set {r : Row} {k : Nat} (hk : k < r.cells.length) (x : Char) (i : Int) :
    lookAt i { r with cells := r.cells.set k x } = if i = k then x else r.lookAt i := by
  rcases Int.lt_or_le i 0 with hi | hi
  · rw [lookAt, lookAt, if_pos hi, if_pos hi, if_neg (by omega)]
  · obtain ⟨n, rfl⟩ := Int.eq_ofNat_of_zero_le hi
    simp only [lookAt, Int.not_lt.mpr hi, if_false, Int.toNat_natCast,
      List.getD_eq_getElem?_getD, List.getElem?_set, hk, if_true, Int.natCast_inj]
    by_cases hn : n = k
    · simp [hn]
    · simp [hn, Ne.symm hn]

/-- Where no place wraps around, a window lists the contents at the places around the head. -/
theorem window_eq_map_lookAt {radius : UInt64} {r : Row}
    (h : r.head + radius.toNat < UInt64.size / 2) :
    r.window radius = (List.range (2 * radius.toNat + 1)).map fun (k : Nat) =>
      r.lookAt (r.head - radius.toNat + k) := by
  have hword : ∀ n : Int, -(UInt64.size / 2 : Nat) ≤ n → n < (UInt64.size / 2 : Nat) →
      signedWord n = n := by
    intro n hlo hhi
    exact signedWord_of_fits hlo hhi
  have hhalf : (UInt64.size / 2 : Nat) = 9223372036854775808 := rfl
  rw [hhalf] at h hword
  simp only [window]
  rw [hword r.head (by omega) (by omega), hword radius.toNat (by omega) (by omega),
    hword (r.head - radius.toNat) (by omega) (by omega),
    hword (r.head + radius.toNat) (by omega) (by omega),
    show ((r.head : Int) + radius.toNat + 1 - (r.head - radius.toNat)).toNat =
      2 * radius.toNat + 1 by omega]

/-- The map has at each coordinate what the row has at its place, counted from the lower bound. -/
structure Charted (r : Row) (c : Chart) : Prop where
  cells : ∀ i, r.lookAt i = c.cells (c.lo + i)
  length : (r.cells.length : Int) = c.hi - c.lo + 1
  head : (r.head : Int) = c.head - c.lo
  inside : c.head ≤ c.hi

namespace Charted

variable {r : Row} {c : Chart}

theorem lo_le_head (h : r.Charted c) : c.lo ≤ c.head := by
  have hhead := h.head
  omega

theorem concat (h : r.Charted c) :
    Charted { r with cells := r.cells ++ [Glyph.blank] } { c with hi := c.hi + 1 } where
  cells i := by
    rw [← h.cells]
    simp only [lookAt, List.getD_eq_getElem?_getD]
    split
    · rfl
    · rcases Nat.lt_trichotomy i.toNat r.cells.length with hk | hk | hk
      · rw [List.getElem?_append_left hk]
      · simp [hk]
      · rw [List.getElem?_eq_none (by rw [List.length_append, List.length_singleton]; omega),
          List.getElem?_eq_none (by omega)]
  length := by
    have hlength := h.length
    simp only [List.length_append, List.length_singleton]
    omega
  head := h.head
  inside := by
    have hinside := h.inside
    change c.head ≤ c.hi + 1
    omega

theorem cons (h : r.Charted c) :
    Charted ⟨Glyph.blank :: r.cells, r.head + 1⟩ { c with lo := c.lo - 1 } where
  cells i := by
    have hcells := h.cells (i - 1)
    rw [show c.lo + (i - 1) = c.lo - 1 + i by omega] at hcells
    rw [← hcells]
    rcases Int.lt_trichotomy i 0 with hi | rfl | hi
    · rw [lookAt, lookAt, if_pos hi, if_pos (by omega)]
    · rfl
    · rw [lookAt, lookAt, if_neg (by omega), if_neg (by omega),
        show i.toNat = (i - 1).toNat + 1 by omega, List.getD_cons_succ]
  length := by
    have hlength := h.length
    simp only [List.length_cons]
    omega
  head := by
    have hhead := h.head
    change ((r.head + 1 : Nat) : Int) = c.head - (c.lo - 1)
    omega
  inside := h.inside

theorem pad (h : r.Charted c) (place : Nat) : (r.pad place).Charted (c.address (c.lo + place)) := by
  -- By induction on the blanks that are added on the right.
  induction r using Row.pad.induct place generalizing c with
  | case1 r hinside =>
    rw [Row.pad, if_pos hinside]
    have hlength := h.length
    have haddress : c.address (c.lo + place) = c := by
      simp only [Chart.address, Int.min_eq_left (show c.lo ≤ c.lo + place by omega),
        Int.max_eq_left (show c.lo + place ≤ c.hi by omega)]
    rwa [haddress]
  | case2 r hbeyond ih =>
    rw [Row.pad, if_neg hbeyond]
    have hlength := h.length
    have haddress : Chart.address (c.lo + place) { c with hi := c.hi + 1 } =
        c.address (c.lo + place) := by
      simp only [Chart.address, Int.max_eq_right (show c.hi + 1 ≤ c.lo + place by omega),
        Int.max_eq_right (show c.hi ≤ c.lo + place by omega)]
    rw [← haddress]
    exact ih h.concat

theorem ensure (h : r.Charted c) (place : Int) :
    (r.ensure place).2.Charted (c.address (c.lo + place)) ∧
      ((r.ensure place).1 : Int) = c.lo + place - (c.address (c.lo + place)).lo := by
  -- By induction on the blanks that are added on the left: a place keeps its coordinate.
  induction place, r using Row.ensure.induct generalizing c with
  | case1 place r hleft ih =>
    rw [Row.ensure, if_pos hleft]
    have haddress : Chart.address (c.lo - 1 + (place + 1)) { c with lo := c.lo - 1 } =
        c.address (c.lo + place) := by
      rw [show c.lo - 1 + (place + 1) = c.lo + place by omega]
      simp only [Chart.address, Int.min_eq_right (show c.lo + place ≤ c.lo - 1 by omega),
        Int.min_eq_right (show c.lo + place ≤ c.lo by omega)]
    have hnext := ih h.cons
    rw [haddress] at hnext
    refine ⟨hnext.1, hnext.2.trans ?_⟩
    change c.lo - 1 + (place + 1) - _ = _
    omega
  | case2 place r hright =>
    rw [Row.ensure, if_neg hright]
    have hpad := h.pad place.toNat
    rw [Int.toNat_of_nonneg (Int.not_lt.mp hright)] at hpad
    refine ⟨hpad, ?_⟩
    change (place.toNat : Int) = c.lo + place - min c.lo (c.lo + place)
    omega

/-- The cell that was asked for has the coordinate that was asked for. -/
theorem getD_ensure (h : r.Charted c) (place : Int) :
    (r.ensure place).2.cells.getD (r.ensure place).1 Glyph.blank = c.cells (c.lo + place) := by
  obtain ⟨hcharted, hplace⟩ := h.ensure place
  have hcell := hcharted.cells (r.ensure place).1
  rw [lookAt, if_neg (by omega), Int.toNat_natCast, hplace,
    show ∀ i j : Int, i + (j - i) = j by omega] at hcell
  exact hcell

theorem offset (h : r.Charted c) (offset : Int) : c.lo + (r.head + offset) = c.head + offset := by
  have hhead := h.head
  omega

theorem get (h : r.Charted c) (offset : Int) :
    (r.get offset).1 = c.cells (c.head + offset) ∧
      (r.get offset).2.Charted (c.address (c.head + offset)) := by
  rw [← h.offset offset]
  exact ⟨h.getD_ensure _, (h.ensure _).1⟩

theorem set (h : r.Charted c) (offset : Int) (symbol : Symbol) :
    (r.set offset symbol).Charted
      ((c.address (c.head + offset)).store (c.head + offset) symbol) := by
  obtain ⟨hcharted, hplace⟩ := h.ensure (r.head + offset)
  rw [h.offset offset] at hcharted hplace
  cases symbol with
  | any => exact hcharted
  | char x =>
    have hlo : (c.address (c.head + offset)).lo ≤ c.head + offset := Int.min_le_right _ _
    have hhi : c.head + offset ≤ (c.address (c.head + offset)).hi := Int.le_max_right _ _
    have hlength := hcharted.length
    refine ⟨?_, ?_, hcharted.head, hcharted.inside⟩
    · intro i
      change lookAt i { (r.ensure (r.head + offset)).2 with cells := _ } =
        Function.update (c.address (c.head + offset)).cells (c.head + offset) x _
      rw [lookAt_set (by omega), Function.update_apply, hcharted.cells]
      have hsame : i = (r.ensure (r.head + offset)).1 ↔
          (c.address (c.head + offset)).lo + i = c.head + offset := by omega
      simp only [hsame]
      rfl
    · simpa [Row.set, Chart.store] using hlength

theorem setHead (h : r.Charted c) (place : Int) :
    (r.setHead place).Charted (c.goTo (c.lo + place)) := by
  obtain ⟨hcharted, hplace⟩ := h.ensure place
  exact ⟨hcharted.cells, hcharted.length, hplace, Int.le_max_right _ _⟩

theorem goTo (h : r.Charted c) (offset : Int) :
    (r.setHead (r.head + offset)).Charted (c.goTo (c.head + offset)) := by
  rw [← h.offset offset]
  exact h.setHead _

theorem lookAt_head (h : r.Charted c) : r.lookAt r.head = c.cells c.head := by
  rw [h.cells, h.head, show c.lo + (c.head - c.lo) = c.head by omega]

theorem perform (h : r.Charted c) (access : Access) :
    (r.perform access).2.Charted (c.perform access).2 := by
  cases access with
  | get offset => exact (h.get offset).2
  | set offset symbol => exact h.set offset symbol
  | read =>
    have hread := (h.get 0).2
    rwa [Int.add_zero] at hread
  | write symbol =>
    have hwrite := h.set 0 symbol
    rwa [Int.add_zero] at hwrite
  | move d =>
    cases d with
    | left => exact h.goTo (-1)
    | right => exact h.goTo 1
    | stay => exact h
  | setHead place => exact h.setHead place
  | peek => exact h
  | window radius => exact h

theorem answer (h : r.Charted c) {access : Access} (hfits : access.Fits r.head) :
    (r.perform access).1 = (c.perform access).1 := by
  cases access with
  | get offset => exact congrArg ([·]) (h.get offset).1
  | set offset symbol => rfl
  | read =>
    have hread := (h.get 0).1
    rw [Int.add_zero] at hread
    exact congrArg ([·]) hread
  | write symbol => rfl
  | move d => cases d <;> rfl
  | setHead place => rfl
  | peek => exact congrArg ([·]) h.lookAt_head
  | window radius =>
    rw [Row.perform, Chart.perform, window_eq_map_lookAt hfits]
    apply List.map_congr_left
    intro k _
    have hhead := h.head
    rw [h.cells, show c.lo + ((r.head : Int) - radius.toNat + k) =
      c.head - radius.toNat + k by omega]

theorem run (h : r.Charted c) (accesses : List Access) :
    (Access.run Row.perform accesses r).2.Charted (Access.run Chart.perform accesses c).2 := by
  -- By induction on the accesses, the map charts the row after them.
  induction accesses generalizing r c with
  | nil => exact h
  | cons access rest ih => exact ih (h.perform access)

theorem answers (h : r.Charted c) {accesses : List Access} {k : Nat} {access : Access}
    (hk : accesses[k]? = some access)
    (hfits : access.Fits (Access.run Row.perform (accesses.take k) r).2.head) :
    (Access.run Row.perform accesses r).1[k]? = (Access.run Chart.perform accesses c).1[k]? := by
  -- By induction on the accesses before it, each is answered as by the map.
  induction accesses generalizing r c k with
  | nil => cases hk
  | cons first rest ih =>
    cases k with
    | zero =>
      obtain rfl := Option.some.inj hk
      exact congrArg some (h.answer hfits)
    | succ k => exact ih (h.perform first) hk hfits

theorem getElem?_cells (h : r.Charted c) {k : Nat} (hk : k < r.cells.length) :
    r.cells[k]? = some (c.cells (c.lo + k)) := by
  have hcell := h.cells k
  rw [lookAt, if_neg (by omega), Int.toNat_natCast, List.getD_eq_getElem _ _ hk] at hcell
  rw [List.getElem?_eq_getElem hk, hcell]

end Charted

end Row

end TapeMachine
