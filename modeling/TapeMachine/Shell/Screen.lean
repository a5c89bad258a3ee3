import TapeMachine.Engine.Session
/-!
# What a session looks like

Frames, statuses and prompts as text. A frame draws the cells around the head in boxes, names the
state and shows the transition that led there. How many cells there are depends on the columns of
the terminal, which also says how a text looks in a style.
-/
namespace TapeMachine.Shell

inductive Style
  | green
  | yellow
  | red
  | bold
  | reversed
  | italic
  deriving DecidableEq

/-- What a terminal answers: whether the output goes to one, the columns that it has at the n-th
event of a session, a text in styles, and what clears it. -/
structure Terminal where
  interactive : Bool
  columns : Nat → Option UInt16
  styled : List Style → String → String
  clear : String

namespace Screen

variable (terminal : Terminal)

def warningLabel : String := terminal.styled [.yellow, .bold] "warning:"

def errorLabel : String := terminal.styled [.red, .bold] "error:"

def heading (text : String) : String := terminal.styled [.green, .bold] text

/-- The columns that one cell takes up, a border included. -/
def cellWidth : Nat := 4

def fallbackWidth : UInt16 := 80

def radius (columns : Option UInt16) : Nat :=
  (max ((columns.getD fallbackWidth).toNat / cellWidth) 3 - 1) / 2

def border (count : Nat) (left middle right : String) : String :=
  left ++ String.intercalate middle (List.replicate count "───") ++ right

def cellText (atHead : Bool) (c : Char) : String :=
  let text := " " ++ String.ofList [c] ++ " "
  (if atHead then terminal.styled [.reversed, .bold] text else text) ++ "│"

/-- A row of cells; the place of the head in it is given. -/
def row (center : Nat) (cells : List Char) : String :=
  "│" ++ String.join (cells.mapIdx fun i c => cellText terminal (i == center) c)

def line (text : String) : String := text ++ "\n"

def stateText (v : View) : String :=
  heading terminal "State" ++ " " ++ String.ofList v.state ++
    (if v.halted then " (halting)" else "") ++ ", reading " ++ Text.inQuotes [v.tape.cell]

def attemptText : Option Attempt → String
  | none => ""
  | some (.applied t) => line (heading terminal "Transition" ++ "\n    " ++ String.ofList t.text)
  | some (.refused state cell) =>
    line (heading terminal "Transition" ++ "\n    " ++ String.ofList (state ++ [':', cell]) ++ " -> ?")

def frame (columns : Option UInt16) (v : View) : String :=
  let center := radius columns
  let cells := v.tape.window (UInt64.ofNat center)
  String.join [
    if terminal.interactive then terminal.clear else "",
    line (heading terminal "Step" ++ " " ++ toString v.steps),
    line (heading terminal "Tape"),
    line (border cells.length "┌" "┬" "┐"),
    line (row terminal center cells),
    line (border cells.length "└" "┴" "┘"),
    line (String.ofList (List.replicate (center * cellWidth + 2) ' ') ++
      terminal.styled [.bold] "^"),
    line (stateText terminal v),
    attemptText terminal v.last]

def status (outcome : Outcome) : String := line (terminal.styled [.italic] outcome.message)

def question (text : String) : String := text ++ " "

def event (columns : Option UInt16) : Event → String
  | .frame v => frame terminal columns v
  | .status outcome => status terminal outcome
  | .prompt => question Command.prompt

/-- The events of a session; the terminal is asked for its columns at each of them. -/
def session (events : List Event) : String :=
  String.join (events.mapIdx fun n e => event terminal (terminal.columns n) e)

def summary (m : Machine) : String :=
  "Finished after " ++ toString m.steps ++ " step(s) in state " ++ Text.inQuotes m.state ++
    (if m.isHalted then " (halted)" else "") ++ "\n"

end Screen

end TapeMachine.Shell
