import Mathlib.Logic.Function.Basic
import TapeMachine.Proofs.Engine.Endless
/-!
# The chart of a tape

The first cell of a content has coordinate zero, and no cell ever changes its coordinate. A chart is
the map over the integers that a tape stands for: its last write wins, its bounds are those of the
coordinates addressed so far, and a window is the row of what lies around the head.
-/
namespace TapeMachine

inductive Access
  | get (offset : Int)
  | set (offset : Int) (symbol : Symbol)
  | read
  | write (symbol : Symbol)
  | move (d : Direction)
  | setHead (index : Int)
  | peek
  | window (radius : UInt64)

/-- A map over the integers with a head, and the bounds of the coordinates addressed so far. -/
structure Chart where
  cells : Int → Char
  head : Int
  lo : Int
  hi : Int

namespace Chart

def ofList (content : List Char) : Chart where
  cells i := if 0 ≤ i then content.getD i.toNat Glyph.blank else Glyph.blank
  head := 0
  lo := 0
  hi := max 0 (content.length - 1)

def address (i : Int) (c : Chart) : Chart := { c with lo := min c.lo i, hi := max c.hi i }

/-- Writes at a coordinate; the wildcard writes nothing. -/
def store (i : Int) (symbol : Symbol) (c : Chart) : Chart :=
  match symbol with
  | .any => c
  | .char x => { c with cells := Function.update c.cells i x }

def goTo (i : Int) (c : Chart) : Chart := { c.address i with head := i }

/-- The contents that an access answers with, and the map after it. -/
def perform (access : Access) (c : Chart) : List Char × Chart :=
  match access with
  | .get offset => ([c.cells (c.head + offset)], c.address (c.head + offset))
  | .set offset symbol => ([], (c.address (c.head + offset)).store (c.head + offset) symbol)
  | .read => ([c.cells c.head], c.address c.head)
  | .write symbol => ([], (c.address c.head).store c.head symbol)
  | .move .left => ([], c.goTo (c.head - 1))
  | .move .right => ([], c.goTo (c.head + 1))
  | .move .stay => ([], c)
  | .setHead index => ([], c.goTo (c.lo + index))
  | .peek => ([c.cells c.head], c)
  | .window radius =>
    ((List.range (2 * radius.toNat + 1)).map fun (k : Nat) => c.cells (c.head - radius.toNat + k), c)

theorem goTo_head {c : Chart} (hlo : c.lo ≤ c.head) (hhi : c.head ≤ c.hi) : c.goTo c.head = c := by
  simp only [goTo, address, Int.min_eq_left hlo, Int.max_eq_left hhi]

theorem goTo_goTo {c : Chart} (hlo : c.lo ≤ c.head) (hhi : c.head ≤ c.hi) (d : Direction)
    (n : Nat) :
    (c.goTo (c.head + d.shift)).goTo (c.head + d.shift + n * d.shift) =
      c.goTo (c.head + (n + 1 : Nat) * d.shift) := by
  have hplace : c.head + d.shift + n * d.shift = c.head + (n + 1 : Nat) * d.shift := by
    cases d <;> simp only [Direction.shift] <;> omega
  have hbounds : min (min c.lo (c.head + d.shift)) (c.head + (n + 1 : Nat) * d.shift) =
        min c.lo (c.head + (n + 1 : Nat) * d.shift) ∧
      max (max c.hi (c.head + d.shift)) (c.head + (n + 1 : Nat) * d.shift) =
        max c.hi (c.head + (n + 1 : Nat) * d.shift) := by
    cases d <;> simp only [Direction.shift] <;> omega
  simp only [goTo, address, hplace, hbounds]

end Chart

/-- The answers to accesses one after another, and what is there after them. -/
def Access.run {σ : Type} (perform : Access → σ → List Char × σ) :
    List Access → σ → List (List Char) × σ
  | [], s => ([], s)
  | access :: rest, s =>
    let (answer, next) := perform access s
    let (answers, last) := run perform rest next
    (answer :: answers, last)

theorem Access.run_cons {σ : Type} (perform : Access → σ → List Char × σ) (access : Access)
    (rest : List Access) (s : σ) :
    run perform (access :: rest) s =
      ((perform access s).1 :: (run perform rest (perform access s).2).1,
        (run perform rest (perform access s).2).2) := rfl

def Access.Fits (head : Nat) : Access → Prop
  | window radius => head + radius.toNat < UInt64.size / 2
  | _ => True

end TapeMachine
