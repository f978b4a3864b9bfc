import Fieldwise.Pos

/-!
# Tokens

A source text is a list of token trees: words, single punctuation characters, literals kept
exactly as written, and groups of tokens between delimiters. A punctuation character records
whether another one follows it without a blank, so operators of several characters stay apart from
neighbours that merely stand next to each other.
-/

namespace Fieldwise

/-- What encloses a group. The invisible delimiter marks a unit that has no text of its own. -/
inductive Delim where
  | paren
  | bracket
  | brace
  | invisible
  deriving DecidableEq, Inhabited

/-- Whether a punctuation character belongs together with the one after it. -/
inductive Spacing where
  | alone
  | joint
  deriving DecidableEq, Inhabited

/-- A token tree. A word keeps its raw marker `r#`; a literal keeps its whole text. -/
inductive Token where
  | ident (name : String) (pos : Pos)
  | punct (char : Char) (spacing : Spacing) (pos : Pos)
  | literal (text : String) (pos : Pos)
  | group (delim : Delim) (body : List Token) (opening closing : Pos)
  deriving Inhabited, BEq

namespace Token

/-- The place where a token begins. -/
def pos : Token → Pos
  | ident _ pos => pos
  | punct _ _ pos => pos
  | literal _ pos => pos
  | group _ _ opening _ => opening

/-- The tokens of an operator: every character but the last is joined to the next one. -/
def operator (pos : Pos) : List Char → List Token
  | [] => []
  | [c] => [punct c .alone pos]
  | c :: rest => punct c .joint pos :: operator pos rest

mutual

/-- The number of tokens in a tree, the tree itself included. -/
def size : Token → Nat
  | group _ body _ _ => sizeAll body + 1
  | _ => 1

/-- The number of tokens in a list of trees. -/
def sizeAll : List Token → Nat
  | [] => 0
  | token :: rest => size token + sizeAll rest

end

end Token

/-- A list of token trees, the form in which every source text is processed. -/
abbrev Tokens := List Token

end Fieldwise
