import TapeMachine.Language.Excerpt
import TapeMachine.Language.Scan
import TapeMachine.Language.Source
/-!
# From a source to a program

A source is read to its end, open scopes are closed and the table is checked. There is a program
exactly when no diagnostic is an error.
-/
namespace TapeMachine

def Draft.program? {μ : Type} (draft : Draft μ) : Option Program :=
  draft.initial.map fun (name, _) =>
    { table := draft.table
      initial := name
      halts := Name.halt :: draft.halts
      alphabet := Roster.enter draft.alphabet Glyph.blank
      tape := Tape.ofList (draft.tape.getD []) }

namespace Scan

variable {μ : Type}

def whole (first : μ) (source : List (μ × Char)) (last : μ) : Scan μ :=
  ((begin first).readAll source).close last

/-- Only an invalid initial state has a place: that of its declaration. -/
def placeOf (s : Scan μ) : Problem → Option μ
  | .invalidInitial _ => s.draft.initial.map (·.2)
  | _ => none

def problemReports (s : Scan μ) : List (Diagnostic μ) :=
  (s.draft.table.problems (s.draft.initial.map (·.1))).map fun p =>
    ⟨.problem p, s.placeOf p, .block⟩

def verdict (s : Scan μ) : List (Diagnostic μ) := s.diagnostics ++ s.problemReports

def program? (s : Scan μ) : Option Program :=
  if Diagnostic.errorCount s.verdict = 0 then s.draft.program? else none

end Scan

def scanSource (source : List Char) : Scan Mark :=
  Scan.whole Mark.origin (Mark.origin.locate source) (Mark.origin.after source)

structure Compiled where
  source : List Char
  program : Option Program
  diagnostics : List (Diagnostic Mark)

def compile (source : List Char) : Compiled :=
  let s := scanSource source
  ⟨source, s.program?, s.verdict⟩

theorem program_compile (source : List Char) :
    (compile source).program = (scanSource source).program? := rfl

theorem diagnostics_compile (source : List Char) :
    (compile source).diagnostics = (scanSource source).verdict := rfl

namespace Compiled

def errorCount (c : Compiled) : Nat := Diagnostic.errorCount c.diagnostics

def countText (c : Compiled) : String := toString c.errorCount ++ " error(s) found!"

variable [Excerpt.Printer]

def excerpt? (c : Compiled) (d : Diagnostic Mark) : Option String :=
  d.place.bind fun mark => Excerpt.at? c.source mark.offset d.message

/-- A diagnostic in words, with its excerpt on the lines below. -/
def diagnosticText (c : Compiled) (d : Diagnostic Mark) : String :=
  d.severity.word ++ ": " ++ d.message ++
    match c.excerpt? d with
    | some excerpt => "\n" ++ excerpt
    | none => ""

def report (c : Compiled) : String :=
  String.join (c.diagnostics.map fun d => c.diagnosticText d ++ "\n") ++ c.countText

end Compiled

end TapeMachine
