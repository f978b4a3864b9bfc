/-!
# Lines of a text

A line ends with a line feed, and a carriage return before the line feed belongs to the end. A text that ends
with a line feed has no empty line behind it.
-/

namespace Fieldwise.Text

/-- A line without the carriage return of its end. -/
def withoutReturn (line : List Char) : List Char :=
  if line.getLast? = some '\r' then line.dropLast else line

/-- The lines of characters, the first of which is in the making. -/
def splitLines (line : List Char) : List Char → List (List Char)
  | [] => if line.isEmpty then [] else [line]
  | '\n' :: rest => withoutReturn line :: splitLines [] rest
  | c :: rest => splitLines (line ++ [c]) rest

/-- The lines of a text. -/
def lines (text : String) : List String := (splitLines [] text.toList).map String.ofList

/-- A line under an indentation; an empty line stays empty. -/
def indented (indent line : String) : String :=
  if line.isEmpty then "\n" else indent ++ line ++ "\n"

theorem lines_empty : lines "" = [] := rfl

end Fieldwise.Text
