import TapeMachine.Files.Folder
/-!
# Programs in files

A program file is text of a limited size. Loading a folder loads every file in it with the name of
a program file, in the order of the paths; what is wrong with one does not concern the others.
-/
namespace TapeMachine.Load

def maxSize : Nat := 65536

def source (path : Path) : Found → Except Failure (List Char)
  | .error e => .error (.file (.unreadable path e))
  | .ok (.file content fault) =>
    if content.size > maxSize then .error (.file (.tooLarge path maxSize))
    else
      match fault with
      | some e => .error (.file (.unreadable path e))
      | none =>
        match String.fromUTF8? content with
        | some text => .ok text.toList
        | none => .error (.file (.notText path))
  | .ok _ => .error (.file (.notFile path))

def program (path : Path) (found : Found) : Except Failure Program :=
  match source path found with
  | .ok text => Program.ofSource text
  | .error e => .error e

def failedEntries (items : List (Except AccessError EntryName)) : List AccessError :=
  items.filterMap fun
    | .error e => some e
    | .ok _ => none

def listedNames (items : List (Except AccessError EntryName)) : List EntryName :=
  items.filterMap Except.toOption

/-- Whether a name in a folder is that of a program file. What stands there is asked through the
path. -/
def isCandidate (disk : Disk) (folder : Path) (name : EntryName) : Bool :=
  !(disk.find (folder.join name.bytes)).isFolder && Path.isProgramName name.bytes

/-- The listed names of program files, in the order of their paths. -/
def candidates (disk : Disk) (folder : Path) (items : List (Except AccessError EntryName)) :
    List EntryName :=
  ((listedNames items).filter (isCandidate disk folder)).mergeSort
    fun s t => folder.join s.bytes ≤ folder.join t.bytes

variable [Excerpt.Printer]

/-- A program with its path, or a failure that names the path. -/
def candidate (path : Path) (found : Found) : Except Failure (Path × Program) :=
  match program path found with
  | .ok p => .ok (path, p)
  | .error e => .error (.file (.badProgram path e.message))

def folder (disk : Disk) (path : Path) : List (Except Failure (Path × Program)) :=
  match disk.find path with
  | .error _ => [.error (.file (.missingFolder path))]
  | .ok (.folder _ _ (.error e)) => [.error (.file (.unreadableFolder path e))]
  | .ok (.folder _ _ (.ok items)) =>
    (failedEntries items).map (fun e => .error (.file (.unreadableEntry e))) ++
      (candidates disk path items).map fun name =>
        candidate (path.join name.bytes) (disk.find (path.join name.bytes))
  | .ok _ => [.error (.file (.unreadableFolder path .notFolder))]

end TapeMachine.Load
