import TapeMachine.Files.Load
import TapeMachine.Program.Serial
import TapeMachine.Samples
import TapeMachine.Shell.Options
import TapeMachine.Shell.Screen
import TapeMachine.Text.Blank
import TapeMachine.Text.Quoted
/-!
# The command line

What a command line writes and the code that it ends with. It lists the samples, checks a folder, or
takes a program from a file or a sample and then checks it, writes it as JSON or begins a session
on the lines of standard input.
-/
namespace TapeMachine.Shell

/-- A program taken from somewhere, or why there is none, after notes on the error output. -/
structure Taken where
  notes : String
  program : Except String Program

/-- The lines of an input; the end of the input ends its last line. -/
def linesOf (input : List Char) : List (List Char) :=
  let lines := Text.pieces '\n' input
  (if lines.getLast? = some [] then lines.dropLast else lines).map (Text.dropEndWhile (· == '\r'))

/-- The next line, and the lines after it; at their end it is that of quitting. -/
def ask : List (List Char) → List Char × List (List Char)
  | [] => (['q'], [])
  | line :: lines => (line, lines)

def agrees (answer : List Char) : Bool :=
  let answer := Text.trim answer
  answer == ['y'] || answer == ['Y']

/-- A text with blanks up to a width, on its right side. -/
def padRight (width : Nat) (text : String) : String :=
  text ++ String.ofList (List.replicate (width - text.length) ' ')

def padLeft (width : Nat) (text : String) : String :=
  String.ofList (List.replicate (width - text.length) ' ') ++ text

def sampleLine (index : Nat) (sample : Sample) : String :=
  padLeft 2 (toString index) ++ "  " ++ padRight 20 sample.name ++ " start " ++
    Text.inQuotes sample.program.initial ++ ", tape " ++ Text.inQuotes sample.program.tape.cells ++
    ", " ++ sample.program.sizeText ++ "\n"

def listing : String :=
  String.join (Samples.all.zipIdx.map fun (sample, index) => sampleLine index sample)

def okLine (p : Program) : String := "OK: " ++ p.sizeText ++ "\n"

def okPathLine (path : Path) (p : Program) : String :=
  "OK: " ++ path.display ++ ": " ++ p.sizeText ++ "\n"

variable [Excerpt.Printer] [Json.Escaping]

/-- How a failure is written when it ends the command line without further words. -/
def rawFailure (e : Failure) : String :=
  "Error: " ++ e.kind.label ++ "(" ++ String.ofList (Text.quoted e.detail.toList) ++ ")\n"

def question (path : Path) : String :=
  "'" ++ path.display ++ "' does not have a .tur extension. Continue? [y/N] "

/-- The number of pauses in a session, one between two steps of the same batch. -/
def pauses : List Event → Nat
  | .frame _ :: .frame w :: rest => pauses (.frame w :: rest) + 1
  | _ :: rest => pauses rest
  | [] => 0

def findSample (text : List Char) : Except Failure Sample :=
  match Text.readSignedWord text with
  | some index => Samples.atIndex index
  | none => Samples.ofName text

def takeSample (text : List Char) : Taken :=
  match findSample text with
  | .ok sample => ⟨"", .ok sample.program⟩
  | .error e =>
    ⟨"", .error (e.message ++ ". Available programs: " ++ String.intercalate ", " Samples.names)⟩

section
variable (terminal : Terminal)

def errorLine (message : String) : String := Screen.errorLabel terminal ++ " " ++ message ++ "\n"

def outText : Except Failure (Path × Program) → String
  | .ok (path, p) => okPathLine path p
  | .error _ => ""

def errText : Except Failure (Path × Program) → String
  | .ok _ => ""
  | .error e => errorLine terminal e.message

def checkFolder (disk : Disk) (path : Path) : Exit :=
  let results := Load.folder disk path
  { code := if results.all (·.isOk) then 0 else 1
    out := String.join (results.map outText)
    err := String.join (results.map (errText terminal))
    paused := 0 }

def note (c : Compiled) (d : Diagnostic Mark) : String :=
  (match d.severity with
    | .warning => Screen.warningLabel terminal
    | .error => Screen.errorLabel terminal) ++
    " " ++ d.message ++ "\n" ++
    match c.excerpt? d with
    | some excerpt => excerpt ++ "\n"
    | none => ""

def takeSource (source : List Char) : Taken :=
  let c := compile source
  { notes := String.join (c.diagnostics.map (note terminal c))
    program := match c.program with
      | some p => .ok p
      | none => .error c.countText }

def takeFile (path : Path) (found : Found) : Taken :=
  match Load.source path found with
  | .ok source => takeSource terminal source
  | .error e => ⟨"", .error e.message⟩

def converse (delay : Nat) (notes : String) (lines : List (List Char)) (m : Machine) : Exit :=
  let t := Session.run lines m
  ⟨0, Screen.session terminal t.events ++ Screen.summary t.machine, notes, delay * pauses t.events⟩

end

namespace Options

variable (o : Options) (terminal : Terminal)

def useProgram (notes : String) (lines : List (List Char)) (p : Program) : Exit :=
  if o.check then ⟨0, okLine p, notes, 0⟩
  else if o.dump then ⟨0, String.ofList (p.toJson.pretty 0) ++ "\n", notes, 0⟩
  else
    match o.tape with
    | none => converse terminal o.delay notes lines (Machine.ofProgram p)
    | some content =>
      match (Machine.ofProgram p).setTape content with
      | .ok m => converse terminal o.delay notes lines m
      | .error e => ⟨1, "", notes ++ rawFailure e, 0⟩

/-- What is done with a program that was taken, or without one. -/
def useTaken (lines : List (List Char)) (taken : Taken) : Exit :=
  match taken.program with
  | .ok p => o.useProgram terminal taken.notes lines p
  | .error message => ⟨1, "", taken.notes ++ errorLine terminal message, 0⟩

/-- Takes a program from a file, after a question if the file is not named as a program and is to
be run. -/
def useFile (disk : Disk) (lines : List (List Char)) (path : Path) : Exit :=
  if Path.isProgram path || o.check then
    o.useTaken terminal lines (takeFile terminal path (disk.find path))
  else
    let asked := Screen.question (question path)
    let (answer, lines) := ask lines
    if agrees answer then
      let e := o.useTaken terminal lines (takeFile terminal path (disk.find path))
      { e with out := asked ++ e.out }
    else ⟨0, asked, "", 0⟩

def folder? (disk : Disk) : Option Path :=
  o.path.filter fun path => o.check && (disk.find path).isFolder

def run (disk : Disk) (lines : List (List Char)) : Exit :=
  if o.list then ⟨0, listing, "", 0⟩
  else
    match o.folder? disk with
    | some path => checkFolder terminal disk path
    | none =>
      match o.sample, o.path with
      | some text, _ => o.useTaken terminal lines (takeSample text)
      | none, some path => o.useFile terminal disk lines path
      | none, none => ⟨1, "", errorLine terminal "No program file given", 0⟩

end Options

/-- The end of a command line with the given arguments, files and standard input. -/
def run (reader : Reader) (terminal : Terminal) (args : List Path) (disk : Disk)
    (input : List Char) : Exit :=
  match reader args with
  | .ok o => o.run terminal disk (linesOf input)
  | .error e => e

end TapeMachine.Shell
