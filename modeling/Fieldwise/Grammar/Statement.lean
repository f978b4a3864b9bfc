import Fieldwise.Grammar.Expression

/-!
# Statements

A block holds items, `let` statements, macro calls and expressions. An expression that is not block-like
needs a semicolon unless it is the last one.
-/

namespace Fieldwise.Grammar

open Fieldwise.Grammar.Parser

/-- Whether an item comes next, so that it is no expression. -/
def startsItem (tokens : Tokens) : Bool :=
  Look.words ["pub", "extern", "use", "fn", "mod", "type", "struct", "enum", "trait", "impl",
      "macro"] tokens ||
    (Look.word "crate" tokens && !Look.second (Look.op "::") tokens) ||
    (Look.word "static" tokens && (Look.second (Look.word "mut") tokens ||
      (Look.second Look.ident tokens && !(Look.second (Look.word "async") tokens &&
        Look.third (Look.any [Look.word "move", Look.op "|"]) tokens)))) ||
    (Look.word "const" tokens && !(Look.second (Look.group .brace) tokens ||
      Look.second (Look.word "static") tokens ||
      (Look.second (Look.word "async") tokens &&
        !Look.third (Look.words ["unsafe", "extern", "fn"]) tokens) ||
      Look.second (Look.word "move") tokens || Look.second (Look.op "|") tokens)) ||
    (Look.word "unsafe" tokens && !Look.second (Look.group .brace) tokens) ||
    (Look.word "async" tokens && Look.second (Look.words ["unsafe", "extern", "fn"]) tokens) ||
    (Look.word "union" tokens && Look.second Look.ident tokens) ||
    (Look.word "auto" tokens && Look.second (Look.word "trait") tokens) ||
    (Look.word "default" tokens && Look.second (Look.words ["unsafe", "impl"]) tokens)

/-- The macro call that a statement may begin with. -/
inductive CallKind where
  /-- The call defines something by name. -/
  | definition
  /-- The call is a statement of its own. -/
  | statement
  /-- The call, if there is one, is an expression. -/
  | expression

/-- How a macro call after this path is to be read. -/
def callKind (tokens : Tokens) : CallKind :=
  if !Look.op "!" tokens then .expression
  else if Look.second (Look.any [Look.ident, Look.word "try"]) tokens then .definition
  else if Look.second (Look.group .brace) tokens &&
      !(Look.third (fun ts => (Look.op "." ts && !Look.op ".." ts) || Look.op "?" ts) tokens) then
    .statement
  else .expression

/-- A `let` statement. -/
def letStatement (rules : Rules) : Parser Tokens := do
  let keyword ← word "let"
  let pattern ← rules.pattern
  let type ← optionally (Look.op ":") (seq [op ":", rules.typeTokens])
  let value ← if ← look (Look.op "=") then
      let equals ← op "="
      let value ← rules.expr true
      if !endsWithBrace value.tokens && (← look (Look.word "else")) then
        pure (equals ++ value.tokens ++ (← seq [word "else", rules.block]))
      else pure (equals ++ value.tokens)
    else pure []
  return keyword ++ pattern.tokens ++ type ++ value ++ (← op ";")
where
  /-- Whether the last token is a block. -/
  endsWithBrace (tokens : Tokens) : Bool :=
    match tokens.getLast? with
    | some (.group .brace _ _ _) => true
    | _ => false

/-- A statement, and whether another one needs a semicolon before it. -/
def statement (rules : Rules) : Parser (Tokens × Bool) := do
  let start ← get
  let attrs ← outerTokens rules
  let read ← ahead modPath
  let kind := match read with
    | some (_, after) => callKind after.tokens
    | none => .expression
  match kind, read with
  | .statement, some (path, after) =>
    resume after
    let bang ← op "!"
    let (delim, body, opening, closing) ← callBody
    let semicolon ← opOpt ";"
    return (attrs ++ path.tokens ++ bang ++ [.group delim body opening closing] ++ semicolon, false)
  | kind, _ =>
    if ← look fun ts => Look.word "let" ts && !Look.group .invisible ts then
      return (attrs ++ (← letStatement rules), false)
    else if startsItem (← get).tokens || isDefinition kind then
      set start
      return ((← rules.item).tokens, false)
    else
      let value ← rules.early
      let semicolon ← opOpt ";"
      let open_ := semicolon.isEmpty && !value.endsArm && value.kind ≠ .bracedCall
      return (attrs ++ value.tokens ++ semicolon, open_)
where
  /-- Whether the call defines something. -/
  isDefinition : CallKind → Bool
    | .definition => true
    | _ => false

/-- The statements of a block. -/
def statements (rules : Rules) : Parser Tokens := do
  go (← rounds)
where
  /-- The statements, at most so many. -/
  go : Nat → Parser Tokens
    | 0 => pure []
    | n + 1 => do
      if ← look (Look.op ";") then
        let semicolon ← op ";"
        return semicolon ++ (← go n)
      else if ← atEnd then return []
      else
        let (tokens, open_) ← statement rules
        if ← atEnd then return tokens
        else if open_ then violated "unexpected token, expected `;`"
        else return tokens ++ (← go n)

end Fieldwise.Grammar
