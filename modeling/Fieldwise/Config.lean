import Fieldwise.Failure
import Fieldwise.Toml.Document

/-!
# Configuration of a project

What to scan and where to write. The configuration file is looked for in a folder and in the folders above it;
the nearest one counts, and the paths in it are relative to the folder it is in. A section may be written as a
table or as an array with its values in order. Keys that mean nothing here are passed over.
-/

namespace Fieldwise

/-- A configuration. -/
structure Config where
  /-- The version of the format. -/
  version : String
  /-- The files and folders that are scanned. -/
  paths : List Path
  /-- Where constructors are written to. -/
  output : Option Path
  deriving DecidableEq, Inhabited

namespace Config

/-- The name of a configuration file. -/
def fileName : String := "memberwise.toml"

/-- The configuration file of a folder. -/
def fileIn (folder : Path) : Path := folder.join ⟨.plain, [fileName]⟩

/-- The only value of a section: under its key in a table, or first in an array. -/
def onlyValue? (key : String) : Toml → Option Toml
  | .table _ entries => Toml.Entries.get? entries key
  | section_ => section_.items?.bind List.head?

/-- Texts, if all values are texts. -/
def texts? : List Toml → Option (List String)
  | [] => some []
  | value :: rest =>
    match value.text?, texts? rest with
    | some text, some others => some (text :: others)
    | _, _ => none

/-- The paths of the section on sources. -/
def sourcePaths? (section_ : Toml) : Option (List Path) := do
  let value ← onlyValue? "paths" section_
  let items ← value.items?
  let texts ← texts? items
  return texts.map Path.ofText

/-- The path of the section on output. -/
def outputPath? (section_ : Toml) : Option Path := do
  let value ← onlyValue? "path" section_
  let text ← value.text?
  return Path.ofText text

/-- The configuration in the entries of a document. -/
def ofEntries? (entries : Toml.Entries) : Option Config := do
  let version ← (entries.get? "version").bind Toml.text?
  let paths ← (entries.get? "source").bind sourcePaths?
  match entries.get? "output" with
  | none => return ⟨version, paths, none⟩
  | some section_ => return ⟨version, paths, some (← outputPath? section_)⟩

/-- The configuration in a text. -/
def parse (source : String) : Except Failure Config :=
  match (Toml.read? source).bind ofEntries? with
  | some config => .ok config
  | none => .error .badConfig

/-- The paths that have to exist: those that are scanned, and the folder of the output. -/
def neededPaths (config : Config) : List Path :=
  config.paths ++ (config.output.bind Path.parent?).toList

/-- Check that all needed paths exist in a folder. -/
def validate (disk : Disk) (folder : Path) (config : Config) : Except Failure Unit :=
  match config.neededPaths.find? fun path => !disk.holds (folder.join path) with
  | some path => .error (.badPath path)
  | none => .ok ()

/-- Read a configuration file. -/
def load (disk : Disk) (path : Path) : Except Failure Config :=
  match disk.readText path with
  | .ok source => parse source
  | .error fault => .error (.files fault)

/-- Read the configuration file of a folder and check it. -/
def loadIn (disk : Disk) (folder : Path) : Except Failure Config := do
  let config ← load disk (fileIn folder)
  config.validate disk folder
  return config

/-- The nearest folder with a configuration file. -/
def nearest? (disk : Disk) (start : Path) : Option Path :=
  start.ancestors.find? fun folder => disk.holds (fileIn folder)

/-- Find and read the nearest configuration, with the folder it is in. -/
def find (disk : Disk) (start : Path) : Except Failure (Config × Path) :=
  match nearest? disk start with
  | some folder => (fun config => (config, folder)) <$> loadIn disk folder
  | none => .error (.noConfig start)

/-- What a new configuration file says. -/
def template : String :=
  "version = \"1.0\"\n\n[source]\npaths = [\"src/\"]\n\n[output]\n" ++
    "path = \"target/memberwise-expanded.rs\"\n"

end Config

end Fieldwise
