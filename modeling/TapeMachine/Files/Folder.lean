import TapeMachine.Failure
import TapeMachine.Files.Path
/-!
# Files and folders

A tree of files, folders and devices, and what a path leads to in it. Everything but the last step
of a path must be a folder that may be searched, and so must what a step stays in or leaves. The
folder above the topmost one is that folder itself. That something is there does not mean that it can
be read: reading a file, listing a folder and each entry of the listing can fail for themselves.
-/
namespace TapeMachine

/--
A file has its bytes, and what reading them fails with. A folder has its entries, what looking for
one of them fails with, and what comes of listing it: failures and names in any order. A device is
neither, and what is lost has a name in a folder but cannot be looked at.
-/
inductive Entry
  | file (content : ByteArray) (fault : Option AccessError)
  | folder (entries : List (EntryName × Entry)) (barrier : Option AccessError)
      (listing : Except AccessError (List (Except AccessError EntryName)))
  | device
  | lost (error : AccessError)

abbrev Found := Except AccessError Entry

namespace Entry

def isFolder : Entry → Bool
  | folder .. => true
  | file .. | device | lost _ => false

def searched : Entry → Except AccessError (List (EntryName × Entry))
  | folder entries none _ => .ok entries
  | folder _ (some e) _ => .error e
  | file .. | device | lost _ => .error .notFolder

def named? (entries : List (EntryName × Entry)) (name : Path) : Option Entry :=
  (entries.find? (·.1.bytes == name)).map (·.2)

def child (entries : List (EntryName × Entry)) (name : Path) : Found :=
  if Path.maxName < name.length then .error .nameTooLong
  else
    match named? entries name with
    | some (lost e) => .error e
    | some entry => .ok entry
    | none => .error .missing

/-- Takes steps from an entry; the folders above it are given nearest first. -/
def follow : List Path → Entry → List Entry → Found
  | [], here, _ => .ok here
  | step :: rest, here, above =>
    if step = [] then
      if here.isFolder then follow rest here above else .error .notFolder
    else
      match here.searched with
      | .error e => .error e
      | .ok entries =>
        if Path.staysPut step then follow rest here above
        else if Path.goesUp step then follow rest (above.headD here) above.tail
        else
          match child entries step with
          | .ok entry => follow rest entry (here :: above)
          | .error e => .error e

end Entry

def Found.isFolder : Found → Bool
  | .ok entry => entry.isFolder
  | .error _ => false

/-- A tree with everything in it, and the absolute path of the folder where relative paths begin. -/
structure Disk where
  root : Entry
  start : Path

namespace Disk

def find (disk : Disk) (path : Path) : Found :=
  if path = [] then .error .missing
  else if 0 ∈ path then .error .nullInPath
  else if Path.maxLength < path.length then .error .nameTooLong
  else
    Entry.follow
      (Path.steps (if Path.isAbsolute path then path else Path.join disk.start path)) disk.root []

end Disk

end TapeMachine
