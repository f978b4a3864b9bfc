import Fieldwise.Command
import Fieldwise.Files.Change
import Fieldwise.Journal.Printer

/-!
# The program

The commands read the part of the file system that they look at, run on it, print what they have to say, and
write the files that they changed.
-/

namespace Fieldwise.Program

/-- The files and folders at a path. In folders only sources are read; of other files it is enough that they are
there. -/
partial def snapshot (path : String) : IO (Option Node) := do
  let here := (← IO.currentDir) / path
  if ← here.isDir then
    let mut entries : List (String × Node) := []
    for entry in ← here.readDir do
      let inside := entry.path.toString
      if (← entry.path.isDir) || Walk.isSource (Path.ofText inside) then
        if let some node ← snapshot inside then
          entries := entries ++ [(entry.fileName, node)]
      else entries := entries ++ [(entry.fileName, .file ByteArray.empty)]
    return some (.folder entries)
  else if ← here.pathExists then
    return some (.file (← IO.FS.readBinFile path))
  else return none

/-- Take what is at a path of the file system onto a disk. -/
def take (disk : Disk) (path : Path) : IO Disk := do
  let place := Disk.namesOf (disk.startOf path) path.parts
  match ← snapshot (Path.mk .root place).text with
  | some node => return { disk with root := disk.root.put place node }
  | none => return disk

/-- A disk with the working directory and the configurations of all folders above it. -/
def surroundings : IO Disk := do
  let here := Path.ofText (← IO.currentDir).toString
  let mut disk : Disk := ⟨.folder [], here.parts⟩
  disk := disk.makeFolder here
  for folder in here.ancestors do
    disk ← take disk (Config.fileIn folder)
  return disk

/-- A disk with all that a command looks at. -/
def diskFor (command : Command) : IO Disk := do
  let disk ← surroundings
  match command with
  | .init => return disk
  | .expand file => take disk file
  | .check | .run =>
    match Config.nearest? disk disk.workPath with
    | none => return disk
    | some folder =>
      match Config.load disk (Config.fileIn folder) with
      | .error _ => return disk
      | .ok config =>
        let mut found := disk
        for path in config.neededPaths do
          found ← take found (folder.join path)
        return found

/-- The command that arguments ask for. -/
def command? : List String → Option Command
  | ["init"] => some .init
  | ["check"] => some .check
  | ["run"] => some .run
  | ["expand", file] => some (.expand (Path.ofText file))
  | _ => none

/-- How to use the program. -/
def usage : String := "Usage: memberwise <init|check|run|expand FILE>"

/-- Run a command on the file system. -/
def perform (command : Command) : IO UInt32 := do
  let settings : Command.Settings :=
    ⟨← IO.getEnv "MEMBERWISE_LOG", ← IO.getEnv "RUST_LOG", ← IO.getEnv "MEMBERWISE_LOG_FORMAT"⟩
  let disk ← diskFor command
  let outcome := command.execute disk
  for entry in settings.told outcome.entries do
    IO.eprintln (if settings.asRecords then entry.record else entry.plain)
  for written in outcome.disk.root.changes (some disk.root) [] do
    IO.FS.writeBinFile (Path.mk .root written.place).text written.content
  IO.print outcome.output
  IO.eprint (settings.complaints ++ outcome.errors)
  return outcome.code.toUInt32

end Fieldwise.Program

/-- Run the command that the arguments ask for. -/
def main (args : List String) : IO UInt32 := do
  match Fieldwise.Program.command? args with
  | some command => Fieldwise.Program.perform command
  | none =>
    IO.eprintln Fieldwise.Program.usage
    return 2
