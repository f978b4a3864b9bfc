/-!
# Reading configuration text

A reader takes characters from the front of a text, or fails. Alternatives start again where the first one
started. A line ends with a line feed, perhaps after a carriage return; a comment runs up to the end of its
line and holds no control character but the tab.
-/

namespace Fieldwise.Toml

/-- Reads something from the front of a text. -/
abbrev Reader := StateT (List Char) Option

namespace Reader

/-- Fail. -/
def fail {α : Type} : Reader α := fun _ => none

/-- Take a character that fits. -/
def satisfying (fits : Char → Bool) : Reader Char := fun
  | c :: rest => if fits c then some (c, rest) else none
  | [] => none

/-- Take this character. -/
def char (c : Char) : Reader Unit := fun
  | d :: rest => if d = c then some ((), rest) else none
  | [] => none

/-- Take these characters. -/
def literal (word : String) : Reader Unit := fun cs =>
  if word.toList.isPrefixOf cs then some ((), cs.drop word.length) else none

/-- Take all characters up to the first that does not fit. -/
def run (fits : Char → Bool) : Reader (List Char) := fun cs =>
  some (cs.takeWhile fits, cs.dropWhile fits)

/-- Look at the first characters. -/
def ahead (count : Nat) : Reader (List Char) := fun cs => some (cs.take count, cs)

/-- Succeed at the end of the text only. -/
def atEnd : Reader Unit := fun
  | [] => some ((), [])
  | _ => none

/-- Something, if it is there. -/
def perhaps {α : Type} (reader : Reader α) : Reader (Option α) := fun cs =>
  match reader cs with
  | some (found, rest) => some (some found, rest)
  | none => some (none, cs)

/-- Take something again and again, so many times at most, until it fails. -/
def repeatedly {α : Type} (reader : Reader α) : Nat → Reader (List α)
  | 0 => pure []
  | count + 1 => fun cs =>
    match reader cs with
    | none => some ([], cs)
    | some (found, rest) =>
      match repeatedly reader count rest with
      | none => none
      | some (others, last) => some (found :: others, last)

/-- Take something again and again until it fails; it takes a character each time. -/
def many {α : Type} (reader : Reader α) : Reader (List α) := fun cs =>
  repeatedly reader cs.length cs

/-- Things with a separator between them, at least one. -/
def separated {α : Type} (separator : Reader Unit) (reader : Reader α) : Reader (List α) := do
  let first ← reader
  let others ← many (separator *> reader)
  return first :: others

/-- A blank inside a line. -/
def isBlank (c : Char) : Bool := c == ' ' || c == '\t'

/-- A character that may stand in a comment: everything but control characters, the tab allowed. -/
def isCommentChar (c : Char) : Bool := c == '\t' || (' ' ≤ c && c != '\x7f')

/-- Blanks. -/
def blanks : Reader Unit := do
  let _ ← run isBlank

/-- The end of a line. -/
def newline : Reader Unit := char '\n' <|> literal "\r\n"

/-- A comment up to the end of its line. -/
def comment : Reader Unit := do
  char '#'
  let _ ← run isCommentChar

/-- The end of a line or of the text. -/
def lineEnd : Reader Unit := newline <|> atEnd

/-- What may follow on a line when all is said: blanks and a comment. -/
def lineRest : Reader Unit := do
  blanks
  let _ ← perhaps comment
  lineEnd

/-- A blank, or the end of a line with or without a comment before it. -/
def gapPart : Reader Unit :=
  (do let _ ← satisfying isBlank) <|> newline <|> (comment *> newline)

/-- Blanks, comments and ends of lines. -/
def gap : Reader Unit := do
  let _ ← many gapPart

end Reader

end Fieldwise.Toml
