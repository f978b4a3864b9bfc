import Fieldwise.Journal.Engine
import Fieldwise.Journal.Filter

/-!
# Commands

The commands of the program as functions on a disk: what they print, what they tell, what they leave on the
disk, and the code they end with.
-/

namespace Fieldwise

open Fieldwise.Journal

/-- A command. -/
inductive Command where
  /-- Write a first configuration file. -/
  | init
  /-- Scan all source files and report failures. -/
  | check
  /-- Scan all source files and write the constructors. -/
  | run
  /-- Show the constructors of one file. -/
  | expand (file : Path)
  deriving DecidableEq, Inhabited

/-- What a command leaves behind. -/
structure Command.Outcome where
  /-- The code it ends with. -/
  code : Nat
  /-- What it prints as its result. -/
  output : String
  /-- What it prints about failures. -/
  errors : String
  /-- What it tells about itself. -/
  entries : List Entry
  /-- The disk it leaves. -/
  disk : Disk

/-- Where the journal goes and what is in it. -/
structure Command.Settings where
  /-- The filter that is meant for this program. -/
  ownFilter : Option String
  /-- The filter that is meant for all programs. -/
  commonFilter : Option String
  /-- The form of the journal. -/
  form : Option String
  deriving DecidableEq, Inhabited

namespace Command

/-- The part of the program that runs commands. -/
def target : String := "memberwise"

/-- The part of the program that reads configurations. -/
def configTarget : String := "memberwise_codegen::config"

/-- The end of a run that a failure with this record has stopped. -/
def stopped (disk : Disk) (record : String) : Outcome :=
  ⟨1, "", "Error: " ++ record ++ "\n", [], disk⟩

/-- Write a first configuration file, unless there is one. -/
def runInit (disk : Disk) : Outcome :=
  let path := Config.fileIn disk.workPath
  if disk.holds path then
    ⟨0, "Config file already exists at " ++ path.text ++ "\n", "", [], disk⟩
  else
    match disk.writeText path Config.template with
    | .ok written => ⟨0, "Created " ++ Config.fileName ++ "\n", "", [], written⟩
    | .error fault => stopped disk (Failure.faultRecord fault)

/-- Show the constructors of a file. -/
def runExpand (disk : Disk) (file : Path) : Outcome :=
  match expandFile disk file with
  | .ok text => ⟨0, text, "", fileEntries disk file, disk⟩
  | .error failure => stopped disk failure.record

/-- What is told when the configuration of a folder is read. -/
def loadingEntry (folder : Path) : Entry :=
  Journal.entry .debug configTarget "loading config" [("path", .text (Config.fileIn folder).text)]

/-- A list of paths as a diagnostic shows it. -/
def shownPaths (paths : List Path) : String :=
  "[" ++ String.intercalate ", " (paths.map fun path => Text.quoteShown path.text) ++ "]"

/-- What is told when a configuration has been read. -/
def loadedEntry (config : Config) (folder : Path) : Entry :=
  Journal.entry .debug target "config loaded"
    [("config_dir", .text folder.text), ("paths", .text (shownPaths config.paths))]

/-- What is printed when there is no configuration. -/
def noConfigText : String :=
  "Error: No " ++ Config.fileName ++ " found in current directory or parent directories\n" ++
    "Run 'memberwise init' to create a new config file\n"

/-- What a command on a project does once the configuration is known. -/
structure Task where
  /-- What is printed before. -/
  opening : String
  /-- What is printed after success. -/
  closing : String
  /-- What is done. -/
  action : Survey → Disk → Config → Survey.Outcome
  /-- What is told. -/
  entries : Survey → Disk → Config → List Entry

/-- Look at all source files. -/
def checkTask : Task :=
  ⟨"Checking annotated structs...\n", "All checks passed!\n", Survey.check, Survey.scanEntries⟩

/-- Write all constructors. -/
def runTask : Task :=
  ⟨"Generating constructors...\n", "Done!\n", Survey.generate, Survey.generateEntries⟩

/-- What is printed about a failed task. -/
def failureText : Failure → String
  | .failed count => "\n✖ " ++ toString count ++ " struct(s) failed to expand\n"
  | failure => "Error: " ++ failure.record ++ "\n"

/-- Run a task in the folder of its configuration. -/
def perform (task : Task) (disk : Disk) (config : Config) (folder : Path) : Outcome :=
  let outcome := task.action .start disk config
  let opening := "Using configuration from: " ++ folder.text ++ "\n" ++ task.opening
  let entries := loadedEntry config folder :: task.entries .start disk config
  match outcome.result with
  | .ok _ => ⟨0, opening ++ task.closing, outcome.diagnostics, entries, outcome.disk⟩
  | .error failure =>
    ⟨1, opening, outcome.diagnostics ++ failureText failure, entries, outcome.disk⟩

/-- Run a task on the project that the working directory is in. -/
def runTaskHere (task : Task) (disk : Disk) : Outcome :=
  match Config.nearest? disk disk.workPath with
  | none => ⟨1, "", noConfigText, [], disk⟩
  | some folder =>
    let loading := loadingEntry folder
    let outcome := match Config.loadIn disk folder with
      | .error failure => stopped disk failure.record
      | .ok config =>
        match disk.enter folder with
        | .error fault => stopped disk (Failure.faultRecord fault)
        | .ok inside => perform task inside config folder
    { outcome with entries := loading :: outcome.entries }

/-- Run a command. -/
def execute (disk : Disk) : Command → Outcome
  | .init => runInit disk
  | .check => runTaskHere checkTask disk
  | .run => runTaskHere runTask disk
  | .expand file => runExpand disk file

end Command

namespace Command.Settings

/-- The text of the filter that counts: the program's own before the common one. -/
def filterText? (settings : Settings) : Option String :=
  match settings.ownFilter with
  | some text => some text
  | none => settings.commonFilter

/-- Whether entries are written as records. -/
def asRecords (settings : Settings) : Bool :=
  match settings.form with
  | some form => form.map Char.toLower == "json"
  | none => false

/-- The entries that are told. Nothing is told unless a filter is set. -/
def told (settings : Settings) (entries : List Entry) : List Entry :=
  match settings.filterText? with
  | some text => entries.filterMap (Filter.parse text).apply
  | none => []

/-- What is printed about rules of the filter that make no sense. -/
def complaints (settings : Settings) : String :=
  match settings.filterText? with
  | some text =>
    String.join ((Filter.ignored text).map fun rule =>
      "ignoring `" ++ rule ++ "`: invalid filter directive\n")
  | none => ""

end Command.Settings

end Fieldwise
