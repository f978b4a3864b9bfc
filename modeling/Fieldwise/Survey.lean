import Fieldwise.Config
import Fieldwise.Files.Walk
import Fieldwise.Scan

/-!
# Surveys of a project

A survey collects the reports of all source files that a configuration names. Surveys go on: a second run adds
to what the first has found, and one failure is enough for every later run to fail. The constructors are written
only after a run without failures.
-/

namespace Fieldwise

/-- What came of a source file. -/
inductive Visit where
  /-- It was scanned. -/
  | scanned (report : FileReport)
  /-- It is not well formed. -/
  | unparsable (failure : Failure)
  /-- It cannot be read. -/
  | unreadable (fault : FileFault)

/-- Scan a file. -/
def scanFile (disk : Disk) (path : Path) : Except Failure FileReport :=
  match disk.readText path with
  | .error fault => .error (.files fault)
  | .ok source =>
    match scan source with
    | .ok reports => .ok ⟨path.text, reports⟩
    | .error error => .error (.unparsable path error.pos.line error.message)

/-- The constructors and faults of a file as text. -/
def expandFile (disk : Disk) (path : Path) : Except Failure String :=
  FileReport.text <$> scanFile disk path

namespace Visit

/-- Visit a file. -/
def of (disk : Disk) (path : Path) : Visit :=
  match scanFile disk path with
  | .ok report => scanned report
  | .error (.files fault) => unreadable fault
  | .error failure => unparsable failure

/-- Whether the file could be read. -/
def isReadable : Visit → Bool
  | unreadable _ => false
  | _ => true

/-- The fault that kept the file from being read. -/
def fault? : Visit → Option FileFault
  | unreadable fault => some fault
  | _ => none

/-- The report, if there is a struct in it. -/
def report? : Visit → Option FileReport
  | scanned report => if report.structs.isEmpty then none else some report
  | _ => none

/-- How many failures the file counts for. -/
def failures : Visit → Nat
  | scanned report => report.failures
  | unparsable _ => 1
  | unreadable _ => 0

/-- The lines that tell of the failures. -/
def diagnostics : Visit → String
  | scanned report => report.diagnostics
  | unparsable failure => "  ✖ " ++ failure.message ++ "\n"
  | unreadable _ => ""

end Visit

/-- What has been found so far. -/
structure Survey where
  /-- The reports of all files with annotated structs. -/
  files : List FileReport
  /-- How many structs and files failed. -/
  failures : Nat

namespace Survey

/-- Nothing has been found yet. -/
def start : Survey := ⟨[], 0⟩

/-- What a run leaves behind. -/
structure Outcome where
  /-- What has been found so far. -/
  survey : Survey
  /-- The lines that tell of failures. -/
  diagnostics : String
  /-- The files after the run. -/
  disk : Disk
  /-- Whether the run succeeded. -/
  result : Except Failure Unit

/-- The source files that paths lead to; a path that leads nowhere fails. -/
def sources (disk : Disk) : List Path → Except Failure (List Path)
  | [] => .ok []
  | path :: rest =>
    match Walk.sources disk path with
    | .error _ => .error (.badPath path)
    | .ok found =>
      match sources disk rest with
      | .error failure => .error failure
      | .ok others => .ok (found ++ others)

/-- Take in visits of files. -/
def add (survey : Survey) (visits : List Visit) : Survey :=
  ⟨survey.files ++ visits.filterMap Visit.report?,
    (visits.map Visit.failures).foldl (· + ·) survey.failures⟩

/-- Scan all source files of a configuration. A file that cannot be read ends the run. -/
def scan (survey : Survey) (disk : Disk) (config : Config) : Outcome :=
  match sources disk config.paths with
  | .error failure => ⟨survey, "", disk, .error failure⟩
  | .ok paths =>
    let visits := paths.map (Visit.of disk)
    let readable := visits.takeWhile Visit.isReadable
    let after := survey.add readable
    let diagnostics := String.join (readable.map Visit.diagnostics)
    match visits.findSome? Visit.fault? with
    | some fault => ⟨after, diagnostics, disk, .error (.files fault)⟩
    | none => ⟨after, diagnostics, disk, .ok ()⟩

/-- Scan all source files and fail if anything ever failed. -/
def check (survey : Survey) (disk : Disk) (config : Config) : Outcome :=
  let outcome := survey.scan disk config
  match outcome.result with
  | .error _ => outcome
  | .ok _ =>
    if outcome.survey.failures > 0 then
      { outcome with result := .error (.failed outcome.survey.failures) }
    else outcome

/-- The first line of a file with constructors. -/
def notice : String := "// Generated by memberwise. Do not edit.\n"

/-- The text of a file with all constructors found so far. -/
def output (survey : Survey) : String := notice ++ listing survey.files

/-- Check all source files, and write the constructors if a place for them is configured. -/
def generate (survey : Survey) (disk : Disk) (config : Config) : Outcome :=
  let outcome := survey.check disk config
  match outcome.result, config.output with
  | .error _, _ => outcome
  | .ok _, none => outcome
  | .ok _, some path =>
    match outcome.disk.writeText path outcome.survey.output with
    | .ok written => { outcome with disk := written }
    | .error fault => { outcome with result := .error (.files fault) }

end Survey

end Fieldwise
