import Fieldwise.Files.Node
import Fieldwise.Files.Path

/-!
# A disk

A tree of files with a working directory. A path is followed part by part: every part but the last has to lead
to a folder, and a slash at the end asks for one. The empty path leads nowhere.
-/

namespace Fieldwise

/-- Why a file cannot be read or written. -/
inductive FileFault where
  /-- There is nothing at the path. -/
  | missing
  /-- A part of the path that has to be a folder is a file. -/
  | notFolder
  /-- There is a folder where a file is asked for. -/
  | isFolder
  /-- The bytes are no text. -/
  | notText
  deriving DecidableEq, Inhabited

namespace FileFault

/-- The number that the operating system has for a fault. -/
def code? : FileFault → Option Nat
  | missing => some 2
  | notFolder => some 20
  | isFolder => some 21
  | notText => none

/-- What the fault is called. -/
def kind : FileFault → String
  | missing => "NotFound"
  | notFolder => "NotADirectory"
  | isFolder => "IsADirectory"
  | notText => "InvalidData"

/-- The fault in words. -/
def description : FileFault → String
  | missing => "No such file or directory"
  | notFolder => "Not a directory"
  | isFolder => "Is a directory"
  | notText => "stream did not contain valid UTF-8"

/-- The message of a fault. -/
def message (fault : FileFault) : String :=
  match fault.code? with
  | some code => fault.description ++ " (os error " ++ toString code ++ ")"
  | none => fault.description

end FileFault

/-- Files with a working directory. -/
structure Disk where
  /-- The tree of all files. -/
  root : Node
  /-- Where relative paths start. -/
  workdir : List String
  deriving Inhabited

namespace Disk

/-- Follow parts of a path from a place. -/
def follow (disk : Disk) (place : List String) : List String → Except FileFault (List String)
  | [] => .ok place
  | part :: rest =>
    match disk.root.at? place with
    | none => .error .missing
    | some (.file _) => .error .notFolder
    | some (.folder entries) =>
      if Path.isIdle part then follow disk place rest
      else if part == ".." then follow disk place.dropLast rest
      else
        match Node.named? part entries with
        | none => .error .missing
        | some _ => follow disk (place ++ [part]) rest

/-- The place where a path starts. -/
def startOf (disk : Disk) (path : Path) : List String :=
  if path.isAbsolute then [] else disk.workdir

/-- The place that a path leads to. -/
def place (disk : Disk) (path : Path) : Except FileFault (List String) :=
  if path = .empty then .error .missing else disk.follow (disk.startOf path) path.parts

/-- What a path leads to. -/
def node (disk : Disk) (path : Path) : Except FileFault Node := do
  let place ← disk.place path
  match disk.root.at? place with
  | some found => .ok found
  | none => .error .missing

/-- Whether a path leads somewhere. -/
def holds (disk : Disk) (path : Path) : Bool := (disk.node path).isOk

/-- The text of a file. -/
def readText (disk : Disk) (path : Path) : Except FileFault String := do
  match ← disk.node path with
  | .folder _ => .error .isFolder
  | .file content =>
    match String.fromUTF8? content with
    | some text => .ok text
    | none => .error .notText

/-- The place where a path would make a file. Its folder has to be there, and no folder may be in its place. -/
def newPlace (disk : Disk) (path : Path) : Except FileFault (List String) :=
  let parts := (path.parts.reverse.dropWhile (· == "")).reverse
  match parts.getLast? with
  | none => if path = .empty then .error .missing else .error .isFolder
  | some last => do
    let folder ← disk.follow (disk.startOf path) (parts.dropLast ++ [""])
    if Path.isIdle last || last == ".." || parts.length < path.parts.length then .error .isFolder
    else
      match disk.root.at? (folder ++ [last]) with
      | some (.folder _) => .error .isFolder
      | _ => .ok (folder ++ [last])

/-- Write a file. -/
def write (disk : Disk) (path : Path) (content : ByteArray) : Except FileFault Disk := do
  let place ← disk.newPlace path
  return { disk with root := disk.root.put place (.file content) }

/-- Write a text. -/
def writeText (disk : Disk) (path : Path) (text : String) : Except FileFault Disk :=
  disk.write path text.toUTF8

/-- The names that a path goes through from a place, without looking at the disk. -/
def namesOf (place : List String) : List String → List String
  | [] => place
  | part :: rest =>
    if Path.isIdle part then namesOf place rest
    else if part == ".." then namesOf place.dropLast rest
    else namesOf (place ++ [part]) rest

/-- Make a folder and all that it is in. -/
def makeFolder (disk : Disk) (path : Path) : Disk :=
  let place := namesOf (disk.startOf path) path.parts
  match disk.root.at? place with
  | some _ => disk
  | none => { disk with root := disk.root.put place .empty }

/-- Take out what a path leads to. -/
def remove (disk : Disk) (path : Path) : Except FileFault Disk := do
  let place ← disk.place path
  return { disk with root := disk.root.erase place }

/-- The path of the working directory from the root. -/
def workPath (disk : Disk) : Path := ⟨.root, disk.workdir⟩

/-- Make a folder the working directory. -/
def enter (disk : Disk) (path : Path) : Except FileFault Disk := do
  let place ← disk.place path
  match disk.root.at? place with
  | some (.folder _) => .ok { disk with workdir := place }
  | some (.file _) => .error .notFolder
  | none => .error .missing

end Disk

end Fieldwise
