import Mathlib.Data.List.Induction
import TapeMachine.Language.Excerpt
import TapeMachine.Text.Decimal
/-!
# Lines and columns in excerpts

An excerpt begins with the line and the column of its place. They are counted along the text before
it, with a line break of two characters taken at once (`positionFrom`), and come out as the line and
the column that a mark has after that text.
-/
namespace TapeMachine

namespace Excerpt

/-- The line and the column after a text, which begins in a line and a column. A line ends with a
line break, and a carriage return before it belongs to it. -/
def positionFrom (line column : Nat) : List Char → Nat × Nat
  | [] => (line, column)
  | '\r' :: '\n' :: rest => positionFrom (line + 1) 1 rest
  | c :: rest =>
    if c = '\n' then positionFrom (line + 1) 1 rest else positionFrom line (column + 1) rest

def PointsTo (excerpt : String) (position : Nat × Nat) : Prop :=
  ∃ margin below, excerpt = String.ofList (List.replicate margin ' ') ++ "--> " ++
    toString position.1 ++ ":" ++ toString position.2 ++ "\n" ++ below

/-- What is relied on: an excerpt tells the line and the column that the text before its place leads
to, counted from one. -/
def Printer.Exact [Printer] : Prop :=
  ∀ before after message, PointsTo (Printer.print before after message) (positionFrom 1 1 before)

def lineOf (before : List Char) : Nat := 1 + before.count '\n'

def lastLine (before : List Char) : List Char := (before.reverse.takeWhile (· ≠ '\n')).reverse

def columnOf (before : List Char) : Nat := (lastLine before).length + 1

theorem lastLine_concat (text : List Char) (c : Char) :
    lastLine (text ++ [c]) = if c = '\n' then [] else lastLine text ++ [c] := by
  rw [lastLine, lastLine, List.reverse_concat, List.takeWhile_cons]
  by_cases h : c = '\n'
  · simp [h]
  · simp [h]

end Excerpt

namespace Mark

theorem after_concat (gap : Mark) (text : List Char) (c : Char) :
    gap.after (text ++ [c]) = (gap.after text).past c :=
  after_append gap text [c]

theorem line_after (text : List Char) : (origin.after text).line = Excerpt.lineOf text := by
  induction text using List.reverseRecOn with
  | nil => rfl
  | append_singleton text c ih =>
    rw [after_concat, past, Excerpt.lineOf, List.count_append, ← Nat.add_assoc, ← Excerpt.lineOf,
      ← ih]
    by_cases h : c = '\n'
    · simp [h]
    · simp [h]

theorem column_after (text : List Char) :
    (origin.after text).column = (Excerpt.lastLine text).length := by
  induction text using List.reverseRecOn with
  | nil => rfl
  | append_singleton text c ih =>
    rw [after_concat, past, Excerpt.lastLine_concat]
    split
    · rfl
    · rw [List.length_append, ← ih]
      rfl

/-- Both ways of counting go along a text together. A line break of two characters is taken at once in
one of them, and in the other the carriage return still counts in the line that it ends. -/
theorem positionFrom_after {line column : Nat} (text : List Char) (gap : Mark)
    (hline : gap.line = line) (hcolumn : gap.column + 1 = column) :
    Excerpt.positionFrom line column text =
      ((gap.after text).line, (gap.after text).column + 1) := by
  fun_induction Excerpt.positionFrom line column text generalizing gap with
  | case1 line column => rw [← hline, ← hcolumn]; rfl
  | case2 line column rest ih =>
    exact ih ((gap.past '\r').past '\n') (congrArg (· + 1) hline) rfl
  | case3 line column rest _ ih => exact ih (gap.past '\n') (congrArg (· + 1) hline) rfl
  | case4 line column c rest _ hc ih =>
    have hpast : gap.past c = ⟨gap.offset + c.utf8Size, gap.line, gap.column + 1⟩ := if_neg hc
    have hrest := ih (gap.past c) (by rw [hpast, hline]) (by rw [hpast, hcolumn])
    exact hrest

end Mark

namespace Excerpt

theorem positionFrom_eq (before : List Char) :
    positionFrom 1 1 before = (lineOf before, columnOf before) := by
  have hafter := Mark.positionFrom_after before Mark.origin rfl rfl
  rwa [Mark.line_after, Mark.column_after] at hafter

def lineText (before after : List Char) : List Char :=
  (lastLine before ++ after.takeWhile (· ≠ '\n')).filter (· ≠ '\r')

def pointer (column : Nat) (line : List Char) : List Char :=
  (line.take (column - 1)).map (fun c => if c = '\t' then c else ' ') ++ "^---".toList

/-- The line is shown without carriage returns; the tabs before the column are kept under it, so that
the arrow stands in line with its character. -/
def arrowed (before after : List Char) (message : String) : String :=
  let number := Text.decimal (lineOf before)
  let column := columnOf before
  let line := lineText before after
  let margin := String.ofList (number.map fun _ => ' ')
  margin ++ "--> " ++ String.ofList number ++ ":" ++ toString column ++ "\n" ++
    margin ++ " |\n" ++
    String.ofList number ++ " | " ++ String.ofList line ++ "\n" ++
    margin ++ " | " ++ String.ofList (pointer column line) ++ "\n" ++
    margin ++ " |\n" ++
    margin ++ " = " ++ message

theorem exact_arrowed : @Printer.Exact ⟨arrowed⟩ := by
  intro before after message
  rw [positionFrom_eq]
  change PointsTo (arrowed before after message) _
  unfold PointsTo arrowed
  simp only [List.map_const', Text.ofList_decimal, String.append_assoc]
  exact ⟨(Text.decimal (lineOf before)).length, _, rfl⟩

end Excerpt

end TapeMachine
