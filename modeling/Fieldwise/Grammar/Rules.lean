import Fieldwise.Grammar.Name

/-!
# The recursive rules of the grammar

Types, expressions, patterns, statements and items refer to each other. Each of them is written as a
function of the rules it refers to; the rules are then tied together level by level, one level for each
step of nesting, so that every parser is a total function.
-/

namespace Fieldwise.Grammar

/-- How tightly operators bind, loosest first. -/
inductive Precedence where
  | lowest
  | assign
  | range
  | or
  | and
  | condition
  | compare
  | bitOr
  | bitXor
  | bitAnd
  | shift
  | sum
  | product
  | cast
  deriving DecidableEq, Inhabited

/-- The place of a precedence in the order. -/
def Precedence.rank : Precedence → Nat
  | .lowest => 0
  | .assign => 1
  | .range => 2
  | .or => 3
  | .and => 4
  | .condition => 5
  | .compare => 6
  | .bitOr => 7
  | .bitXor => 8
  | .bitAnd => 9
  | .shift => 10
  | .sum => 11
  | .product => 12
  | .cast => 13

/-- The rules that the grammar can come back to from inside another rule. -/
structure Rules where
  /-- A type; the flag says whether several bounds may be joined. -/
  type : Bool → Parser Ty
  /-- A bound; the flags say whether captured parameters and constant traits are allowed. -/
  bound : Bool → Bool → Parser Bound
  /-- An expression; the flag says whether a brace after a path begins a struct value. -/
  expr : Bool → Parser Expr
  /-- An operand with the operators before it and the calls and members after it. -/
  unary : Bool → Parser Expr
  /-- The operators that follow an expression and bind at least so tightly. -/
  climb : Expr → Bool → Precedence → Parser Expr
  /-- An expression that a block-like construct at its front may end. -/
  early : Parser Expr
  /-- A pattern without alternatives. -/
  pattern : Parser Pattern
  /-- The statements of a block. -/
  statements : Parser Tokens
  /-- An item. -/
  item : Parser Item
  /-- The tree after `use`; the flag says whether paths may begin at the root. -/
  useTree : Bool → Parser Tokens

namespace Parser

/-- Run parsers one after the other and put their tokens together. -/
def seq : List (Parser Tokens) → Parser Tokens
  | [] => pure []
  | first :: rest => do
    let head ← first
    return head ++ (← seq rest)

/-- Run a parser if a test holds; no tokens otherwise. -/
def optionally (test : Tokens → Bool) (parser : Parser Tokens) : Parser Tokens := do
  if ← look test then parser else pure []

/-- An operator if it comes next; no tokens otherwise. -/
def opOpt (text : String) : Parser Tokens := optionally (Look.op text) (op text)

/-- A name as tokens. -/
def identTokens : Parser Tokens := do
  return [(← ident).token]

/-- A lifetime as tokens, if one comes next. -/
def lifetimeOpt : Parser Tokens := do
  match ← lifetime? with
  | some found => return found.tokens
  | none => return []

/-- The tokens of separated items. -/
def separatedTokens (separator : String) (list : Separated Tokens) : Tokens :=
  joined (sign separator) list.items list.trailing

/-- Items up to the end of the stream, with commas between them, as tokens. -/
def commaList (item : Parser Tokens) : Parser Tokens :=
  separatedTokens "," <$> terminated item

/-- Parse one alternative, chosen by the first test that holds; the names of all of them make up the
message if none does. -/
def choose {α : Type} (named : List (String × (Tokens → Bool) × Parser α)) : Parser α := do
  go (named.map Prod.fst) named
where
  /-- The same, for the alternatives still to be tried. -/
  go (names : List String) : List (String × (Tokens → Bool) × Parser α) → Parser α
    | [] => expected names
    | (_, test, parser) :: rest => do
      if ← look test then parser else go names rest

end Parser

/-- A block in braces, with the attributes that stand inside it. -/
def Rules.block (rules : Rules) : Parser Tokens := Parser.enclosed .brace rules.statements

/-- An expression in which a brace after a path begins a struct value, as tokens. -/
def Rules.exprTokens (rules : Rules) : Parser Tokens := Expr.tokens <$> rules.expr true

/-- A type, as tokens. -/
def Rules.typeTokens (rules : Rules) : Parser Tokens := Ty.tokens <$> rules.type true

end Fieldwise.Grammar
