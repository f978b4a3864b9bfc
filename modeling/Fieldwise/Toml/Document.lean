import Fieldwise.Toml.Scalar

/-!
# Configuration files

A document is a sequence of lines: keys with values, headers, comments. Values nest in arrays and in tables
written in braces, up to a fixed depth; keys have a bound on their parts as well.
-/

namespace Fieldwise.Toml

namespace Reader

/-- Neither nesting nor the parts of a key reach this number. -/
def depthLimit : Nat := 80

/-- A character of a key without quotes. -/
def isKeyChar (c : Char) : Bool :=
  isDigit c || ('a' ≤ c && c ≤ 'z') || ('A' ≤ c && c ≤ 'Z') || c == '_' || c == '-'

/-- A key without quotes. -/
def bareKey : Reader String := do
  let first ← satisfying isKeyChar
  let others ← run isKeyChar
  return String.ofList (first :: others)

/-- One part of a key, with the blanks around it. -/
def keyPart : Reader String := do
  blanks
  let part ← plainText <|> rawText <|> bareKey
  blanks
  return part

/-- A key: the parts before the last, and the last. -/
def key : Reader (List String × String) := do
  let parts ← separated (char '.') keyPart
  match parts.getLast? with
  | some last => if parts.length < depthLimit then return (parts.dropLast, last) else fail
  | none => fail

/-- A key with its value, which a reader gives. -/
def pairOf (value : Reader Toml) : Reader Pair := do
  let (owners, last) ← key
  char '='
  blanks
  return ⟨owners, last, ← value⟩

/-- The items of an array up to its closing bracket. -/
def arrayItems (value : Reader Toml) : Reader (List Toml) := do
  let item : Reader Toml := do
    gap
    let found ← value
    gap
    return found
  match ← perhaps (separated (char ',') item) with
  | some items =>
    let _ ← perhaps (char ',')
    gap
    char ']'
    return items
  | none =>
    gap
    char ']'
    return []

/-- The entries of a table in braces up to its closing brace. -/
def tableEntries (value : Reader Toml) : Reader Entries := do
  let item : Reader Pair := do
    let found ← pairOf value
    blanks
    return found
  let pairs ← perhaps (separated (char ',') item)
  blanks
  char '\x7d'
  match Entries.defineAll [] (pairs.getD []) with
  | some entries => return entries
  | none => fail

/-- A value in which arrays and tables nest less than so many times. -/
def value : Nat → Reader Toml
  | 0 => scalar
  | 1 => scalar
  | depth + 2 =>
    scalar <|>
      (char '[' *> (Toml.array <$> arrayItems (value (depth + 1)))) <|>
      (char '\x7b' *> (Toml.table .braced <$> tableEntries (value (depth + 1))))

/-- A line of a document. -/
inductive Line where
  | blank
  | header (header : Header)
  | pair (pair : Pair)
  deriving Inhabited

/-- A header between brackets. -/
def header : Reader Header :=
  (do
    literal "[["
    let (owners, last) ← key
    literal "]]"
    return .element owners last) <|>
  (do
    char '['
    let (owners, last) ← key
    char ']'
    return .table owners last)

/-- A line, with the blanks behind its end. -/
def line : Reader Line := do
  let found ← match ← ahead 1 with
    | ['#'] => comment *> lineEnd *> pure Line.blank
    | ['['] => do
      let found ← header
      lineRest
      return Line.header found
    | ['\n'] | ['\r'] => newline *> pure Line.blank
    | _ => do
      let found ← pairOf (value depthLimit)
      lineRest
      return Line.pair found
  blanks
  return found

/-- The keys that stand before any header, and the parts of a document. -/
def partsOf : List Line → List Pair × List Part
  | [] => ([], [])
  | .blank :: rest => partsOf rest
  | .pair pair :: rest =>
    let (pairs, parts) := partsOf rest
    (pair :: pairs, parts)
  | .header header :: rest =>
    let (pairs, parts) := partsOf rest
    ([], ⟨header, pairs⟩ :: parts)

/-- The lines of a document; a byte order mark in front is no part of it. -/
def document : Reader (List Line) := do
  let _ ← perhaps (char '\ufeff')
  blanks
  let lines ← many line
  atEnd
  return lines

end Reader

/-- Read a document. -/
def read? (source : String) : Option Entries := do
  let (lines, _) ← Reader.document source.toList
  let (pairs, parts) := Reader.partsOf lines
  let entries ← Entries.defineAll [] pairs
  addParts entries parts

end Fieldwise.Toml
