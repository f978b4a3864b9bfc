import Fieldwise.Journal

/-!
# Writing journal entries

An entry is written on one line: as a record with named values, or as plain text.
-/

namespace Fieldwise.Journal

/-- A character of a record's text. -/
def escapeRecordChar (c : Char) : List Char :=
  if c = '"' then ['\\', '"']
  else if c = '\\' then ['\\', '\\']
  else if c = '\n' then ['\\', 'n']
  else if c = '\r' then ['\\', 'r']
  else if c = '\t' then ['\\', 't']
  else if c < ' ' then
    let digits := Nat.toDigits 16 c.toNat
    ['\\', 'u'] ++ List.replicate (4 - digits.length) '0' ++ digits
  else [c]

/-- A text in a record. -/
def recordText (text : String) : String :=
  String.ofList ('"' :: text.toList.flatMap escapeRecordChar ++ ['"'])

/-- A detail in a record. -/
def Detail.record : Detail → String
  | .text value => recordText value
  | .number value => toString value
  | .flag value => toString value

/-- Named values in braces. -/
def recordOf (values : List (String × String)) : String :=
  "\x7b" ++ String.intercalate "," (values.map fun (name, value) => recordText name ++ ":" ++ value) ++
    "\x7d"

/-- Details as named values. -/
def recordDetails (details : List (String × Detail)) : List (String × String) :=
  details.map fun (name, detail) => (name, detail.record)

/-- What is going on, in a record. -/
def Span.record (span : Span) : String :=
  recordOf (recordDetails span.details ++ [("name", recordText span.name)])

/-- An entry as a record. -/
def Entry.record (entry : Entry) : String :=
  let fields := ("message", recordText entry.message) :: recordDetails entry.details
  let around := match entry.span with
    | some span => [("span", span.record)]
    | none => []
  recordOf ([("level", recordText entry.level.name), ("fields", recordOf fields),
    ("target", recordText entry.target)] ++ around)

/-- A detail in plain text. -/
def Detail.plain : Detail → String
  | .text value => value
  | .number value => toString value
  | .flag value => toString value

/-- An entry as plain text. -/
def Entry.plain (entry : Entry) : String :=
  entry.level.name ++ " " ++ entry.target ++ ": " ++ entry.message ++
    String.join (entry.details.map fun (name, detail) => " " ++ name ++ "=" ++ detail.plain)

end Fieldwise.Journal
