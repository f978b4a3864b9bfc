import Fieldwise.Files.Disk
import Fieldwise.Text.Escape

/-!
# Failures of a run

What can keep a run over the files of a project from succeeding, with the message for users and the record
that is shown for a failure nobody has handled.
-/

namespace Fieldwise

/-- Why a run over a project failed. -/
inductive Failure where
  /-- There is no configuration file at a path or above it. -/
  | noConfig (start : Path)
  /-- A file cannot be read or written. -/
  | files (fault : FileFault)
  /-- The configuration file is not well formed. -/
  | badConfig
  /-- A path in the configuration leads nowhere. -/
  | badPath (path : Path)
  /-- A source file is not well formed. -/
  | unparsable (path : Path) (line : Nat) (reason : String)
  /-- So many structs and files failed. -/
  | failed (count : Nat)
  deriving DecidableEq, Inhabited

namespace Failure

/-- The message of a failure. -/
def message : Failure → String
  | noConfig start => "Config file not found in " ++ start.text
  | files fault => "IO error: " ++ fault.message
  | badConfig => "TOML parse error"
  | badPath path => "Invalid path: " ++ path.text
  | unparsable path line reason =>
    "Parse error in " ++ path.text ++ ":" ++ toString line ++ ": " ++ reason
  | failed count => toString count ++ " struct(s) failed to expand"

/-- A file fault with its number, kind and words. -/
def faultRecord (fault : FileFault) : String :=
  let rest := "kind: " ++ fault.kind ++ ", message: " ++ Text.quoteShown fault.description
  match fault.code? with
  | some code => "Os \x7b code: " ++ toString code ++ ", " ++ rest ++ " \x7d"
  | none => "Error \x7b " ++ rest ++ " \x7d"

/-- The record of a failure. -/
def record : Failure → String
  | noConfig start => "ConfigNotFound(" ++ Text.quoteShown start.text ++ ")"
  | files fault => "Io(" ++ faultRecord fault ++ ")"
  | badConfig => "Toml"
  | badPath path => "InvalidPath(" ++ Text.quoteShown path.text ++ ")"
  | unparsable path line reason =>
    "Parse \x7b path: " ++ Text.quoteShown path.text ++ ", line: " ++ toString line ++
      ", message: " ++ Text.quoteShown reason ++ " \x7d"
  | failed count => "Failed(" ++ toString count ++ ")"

end Failure

end Fieldwise
