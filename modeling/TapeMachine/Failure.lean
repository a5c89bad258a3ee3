import TapeMachine.Files.Path
import TapeMachine.Language.Compile
/-!
# Failures

What an operation on programs can fail with. Every failure is of one of three kinds, and its
wording begins with that of the kind.
-/
namespace TapeMachine

inductive FailureKind
  | parsing
  | validation
  | file
  deriving DecidableEq

namespace FailureKind

def label : FailureKind → String
  | parsing => "ParseError"
  | validation => "ValidationError"
  | file => "FileError"

def describe : FailureKind → String → String
  | parsing, detail => "Program parsing error:\n" ++ detail
  | validation, detail => "Program validation error: " ++ detail
  | file, detail => "File error: " ++ detail

end FailureKind

/-- Why the system does not do what is asked of it. -/
inductive AccessError
  | missing
  | notFolder
  | nameTooLong
  | nullInPath
  | denied
  | other (text : String)
  deriving DecidableEq

def AccessError.message : AccessError → String
  | missing => "No such file or directory (os error 2)"
  | notFolder => "Not a directory (os error 20)"
  | nameTooLong => "File name too long (os error 36)"
  | nullInPath => "file name contained an unexpected NUL byte"
  | denied => "Permission denied (os error 13)"
  | other text => text

/-- What can be wrong with a file or a folder. -/
inductive FileFault
  | unreadable (path : Path) (error : AccessError)
  | notFile (path : Path)
  | tooLarge (path : Path) (limit : Nat)
  | notText (path : Path)
  | missingFolder (path : Path)
  | unreadableFolder (path : Path) (error : AccessError)
  | unreadableEntry (error : AccessError)
  | badProgram (path : Path) (inner : String)
  deriving DecidableEq

def FileFault.message : FileFault → String
  | unreadable path error => "Failed to read file " ++ path.display ++ ": " ++ error.message
  | notFile path => path.display ++ " is not a file"
  | tooLarge path limit =>
    "File " ++ path.display ++ " exceeds the maximum program size of " ++ toString limit ++ " bytes"
  | notText path =>
    "Failed to read file " ++ path.display ++ ": stream did not contain valid UTF-8"
  | missingFolder path => "Directory " ++ path.display ++ " does not exist"
  | unreadableFolder path error =>
    "Failed to read directory " ++ path.display ++ ": " ++ error.message
  | unreadableEntry error => "Failed to read directory entry: " ++ error.message
  | badProgram path inner => "Failed to load program from " ++ path.display ++ ": " ++ inner

inductive Failure
  | badSource (compiled : Compiled)
  | symbolOutsideAlphabet (c : Char)
  | tapeOutsideAlphabet (c : Char)
  | sampleIndex (index : Nat)
  | sampleName (name : List Char)
  | file (fault : FileFault)

namespace Failure

def kind : Failure → FailureKind
  | badSource _ => .parsing
  | symbolOutsideAlphabet _ | tapeOutsideAlphabet _ | sampleIndex _ | sampleName _ => .validation
  | file _ => .file

variable [Excerpt.Printer]

def detail : Failure → String
  | badSource compiled => compiled.report
  | symbolOutsideAlphabet c => "Symbol " ++ Text.inQuotes [c] ++ " is not part of the alphabet"
  | tapeOutsideAlphabet c =>
    "Tape content contains symbol " ++ Text.inQuotes [c] ++ " outside the alphabet"
  | sampleIndex index => "Program index " ++ toString index ++ " out of range"
  | sampleName name => "Program " ++ Text.inQuotes name ++ " not found"
  | file fault => fault.message

def message (f : Failure) : String := f.kind.describe f.detail

end Failure

def Program.ofSource (source : List Char) : Except Failure Program :=
  let compiled := compile source
  match compiled.program with
  | some p => .ok p
  | none => .error (.badSource compiled)

end TapeMachine
