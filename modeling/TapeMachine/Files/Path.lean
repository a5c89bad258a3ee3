import TapeMachine.Text.Lossy
import TapeMachine.Text.Pieces
/-!
# Paths

A path is a row of names with slashes between them. An empty name and a single dot stay where they
are, two dots go one folder up. A path with a slash in front is absolute. Names are bytes, which need
not be text.
-/
namespace TapeMachine

abbrev Path := List UInt8

namespace Path

def slash : UInt8 := 47

def dot : UInt8 := 46

def ofText (text : List Char) : Path := text.flatMap String.utf8EncodeChar

def display (path : Path) : String := String.ofList (Text.lossy path)

def steps (path : Path) : List Path := Text.pieces slash path

def staysPut (step : Path) : Bool := step == [] || step == [dot]

def goesUp (step : Path) : Bool := step == [dot, dot]

def isAbsolute (path : Path) : Bool := path.head? == some slash

def maxName : Nat := 255

def maxLength : Nat := 4095

/-- The name that a path ends in, unless it ends by going up or nowhere. -/
def lastName? (path : Path) : Option Path :=
  ((steps path).reverse.find? (!staysPut ·)).filter (!goesUp ·)

def join (folder name : Path) : Path :=
  if folder.getLast? = some slash then folder ++ name else folder ++ slash :: name

def programExtension : Path := ofText ['t', 'u', 'r']

/-- Whether a name is that of a program file: something before a dot and the extension. -/
def isProgramName (name : Path) : Bool :=
  (dot :: programExtension).isSuffixOf name && (programExtension.length + 1 < name.length)

def isProgram (path : Path) : Bool := (lastName? path).any isProgramName

def isEntryName (name : Path) : Bool :=
  !staysPut name && !goesUp name && !name.contains slash && !name.contains 0 &&
    name.length ≤ maxName

end Path

structure EntryName where
  bytes : Path
  valid : Path.isEntryName bytes = true
  deriving DecidableEq

end TapeMachine
