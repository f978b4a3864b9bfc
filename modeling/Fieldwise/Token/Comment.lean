import Fieldwise.Text.Character

/-!
# Comments

Line comments run to the end of the line, block comments nest. A comment that begins with three
slashes, or with a slash and two stars, documents what follows it; one with an exclamation mark
documents what encloses it. Four slashes or three stars make a plain comment again.
-/

namespace Fieldwise.Comment

/-- How many characters a block comment still has when so many are open. -/
def blockLength : Nat → List Char → Option Nat
  | _, [] => none
  | depth, '/' :: '*' :: rest => (blockLength (depth + 1) rest).map (· + 2)
  | depth, '*' :: '/' :: rest =>
    if depth ≤ 1 then some 2 else (blockLength (depth - 1) rest).map (· + 2)
  | depth, _ :: rest => (blockLength depth rest).map (· + 1)

/-- The characters of a line, without the line feed or the carriage return before it. -/
def line : List Char → List Char
  | [] => []
  | c :: rest =>
    if c = '\n' then []
    else if c = '\r' && rest.head? == some '\n' then []
    else c :: line rest

/-- A carriage return without a line feed after it. -/
def hasBareReturn : List Char → Bool
  | [] => false
  | c :: rest => (c == '\r' && rest.head? != some '\n') || hasBareReturn rest

/-- How many characters the plain comment at the head of a text has. -/
def plainLength (cs : List Char) : Option Nat :=
  match cs with
  | '/' :: '/' :: '/' :: '/' :: _ => some (line cs).length
  | '/' :: '/' :: '/' :: _ => none
  | '/' :: '/' :: '!' :: _ => none
  | '/' :: '/' :: _ => some (line cs).length
  | '/' :: '*' :: '*' :: '/' :: _ => some 4
  | '/' :: '*' :: '*' :: '*' :: _ => blockLength 0 cs
  | '/' :: '*' :: '*' :: _ => none
  | '/' :: '*' :: '!' :: _ => none
  | '/' :: '*' :: _ => blockLength 0 cs
  | _ => none

/-- A documenting comment: its length, its text, and whether it documents what encloses it. -/
structure Doc where
  /-- How many characters the whole comment has. -/
  length : Nat
  /-- The text without the marks around it. -/
  text : List Char
  /-- Whether it documents the enclosing item rather than the next one. -/
  inner : Bool

/-- The documenting comment in a line, from three characters of marks on. -/
def lineDoc (cs : List Char) (inner : Bool) : Doc :=
  let text := line (cs.drop 3)
  ⟨text.length + 3, text, inner⟩

/-- The documenting comment in a block. -/
def blockDoc (cs : List Char) (inner : Bool) : Option Doc :=
  (blockLength 0 cs).map fun n => ⟨n, (cs.take (n - 2)).drop 3, inner⟩

/-- The documenting comment at the head of a text. A bare carriage return spoils it. -/
def doc? (cs : List Char) : Option Doc :=
  let found :=
    match cs with
    | '/' :: '/' :: '!' :: _ => some (lineDoc cs true)
    | '/' :: '*' :: '!' :: _ => blockDoc cs true
    | '/' :: '/' :: '/' :: '/' :: _ => none
    | '/' :: '/' :: '/' :: _ => some (lineDoc cs false)
    | '/' :: '*' :: '*' :: '*' :: _ => none
    | '/' :: '*' :: '*' :: _ => blockDoc cs false
    | _ => none
  found.bind fun d => if hasBareReturn d.text then none else some d

end Fieldwise.Comment
