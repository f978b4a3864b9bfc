/-!
# Places in a source text

A place is a line and a column. Lines count from one and columns from zero, in characters; only a
line feed ends a line. Tokens that were not read from a text stand at the call site, the first
place of all.
-/

namespace Fieldwise

/-- A line, counted from one, and a column, counted in characters from zero. -/
structure Pos where
  /-- The line, counted from one. -/
  line : Nat
  /-- The number of characters before the place on its line. -/
  column : Nat
  deriving DecidableEq, Inhabited

namespace Pos

/-- The place of everything that was not read from a text. -/
def callSite : Pos := ⟨1, 0⟩

/-- The place after one character. -/
def next (p : Pos) (c : Char) : Pos :=
  if c = '\n' then ⟨p.line + 1, 0⟩ else ⟨p.line, p.column + 1⟩

/-- The place after a run of characters. -/
def advance (p : Pos) (text : List Char) : Pos := text.foldl next p

@[simp] theorem advance_nil (p : Pos) : p.advance [] = p := rfl

@[simp] theorem advance_cons (p : Pos) (c : Char) (text : List Char) :
    p.advance (c :: text) = (p.next c).advance text := rfl

theorem advance_append (p : Pos) (a b : List Char) :
    p.advance (a ++ b) = (p.advance a).advance b := by
  simp only [advance, List.foldl_append]

end Pos

end Fieldwise
