import Fieldwise.Grammar.Pattern

/-!
# Expressions

Operands with the operators before them and the calls and members after them, joined by binary operators
of fourteen precedences. A range may not be an operand of another operator, comparisons cannot be chained,
and nothing may be called on a cast. Expressions are only passed through, so their parsers return tokens
with the little that the surrounding grammar has to know.
-/

namespace Fieldwise.Grammar

open Fieldwise.Grammar.Parser

/-- An expression about which nothing else matters. -/
def plainExpr (parser : Parser Tokens) : Parser Expr := do
  return ⟨.other, ← parser⟩

/-- A construct that ends a statement without a semicolon. -/
def blockExpr (parser : Parser Tokens) : Parser Expr := do
  return ⟨.block, ← parser⟩

/-! ## Binary operators -/

/-- The binary operators in the order in which they are tried, longer ones first. -/
def binaryOperators : List (String × Precedence) :=
  [("+=", .assign), ("-=", .assign), ("*=", .assign), ("/=", .assign), ("%=", .assign),
    ("^=", .assign), ("&=", .assign), ("|=", .assign), ("<<=", .assign), (">>=", .assign),
    ("&&", .and), ("||", .or), ("<<", .shift), (">>", .shift), ("==", .compare),
    ("<=", .compare), ("!=", .compare), (">=", .compare), ("+", .sum), ("-", .sum),
    ("*", .product), ("/", .product), ("%", .product), ("^", .bitXor), ("&", .bitAnd),
    ("|", .bitOr), ("<", .compare), (">", .compare)]

/-- The binary operator that comes next. -/
def binaryOperator? (tokens : Tokens) : Option (String × Precedence) :=
  binaryOperators.find? fun entry => Look.op entry.1 tokens

/-- Whether a plain assignment comes next. -/
def startsAssign (tokens : Tokens) : Bool := Look.op "=" tokens && !Look.op "=>" tokens

/-- How tightly the operator that comes next binds. -/
def nextPrecedence (tokens : Tokens) : Precedence :=
  match binaryOperator? tokens with
  | some (_, precedence) => precedence
  | none =>
    if startsAssign tokens then .assign
    else if Look.op ".." tokens then .range
    else if Look.word "as" tokens then .cast
    else .lowest

/-- The right operand of an operator, with everything that binds more tightly. -/
def rightOperand (rules : Rules) (allowStruct : Bool) (precedence : Precedence) :
    Parser Expr := do
  let first ← rules.unary allowStruct
  go first (← rounds)
where
  /-- Take in operators, at most so many. -/
  go (operand : Expr) : Nat → Parser Expr
    | 0 => pure operand
    | n + 1 => do
      let next := nextPrecedence (← get).tokens
      if precedence.rank < next.rank || (next = precedence && precedence = .assign) then
        let before := (← get).tokens.length
        let operand ← rules.climb operand allowStruct next
        if (← get).tokens.length = before then return operand else go operand n
      else return operand

/-- Whether a range without an end stops here. -/
def endsRange (allowStruct : Bool) (tokens : Tokens) : Bool :=
  Look.any [List.isEmpty, Look.op ",", Look.op ";",
    fun ts => Look.op "." ts && !Look.op ".." ts, Look.op "?", Look.op "=>",
    fun ts => !allowStruct && Look.group .brace ts, Look.op "=", Look.op "+", Look.op "/",
    Look.op "%", Look.op "^", Look.op ">", Look.op "<=", Look.op "!=", Look.op "-=",
    Look.op "*=", Look.op "&=", Look.op "|=", Look.op "<<=", Look.word "as"] tokens

/-- A range after its start. -/
def rangeAfter (rules : Rules) (start : Tokens) (allowStruct : Bool) : Parser Expr := do
  let (closed, limits) ← rangeLimits false
  if !closed && (← look (endsRange allowStruct)) then return ⟨.range, start ++ limits⟩
  else
    let stop ← rightOperand rules allowStruct .range
    return ⟨.range, start ++ limits ++ stop.tokens⟩

/-- What may not follow a cast. -/
def afterCast (tokens : Tokens) : Option String :=
  if Look.op "." tokens && !Look.op ".." tokens then
    if Look.second (Look.word "await") tokens then some "`.await`"
    else if Look.second Look.ident tokens &&
        (Look.third (Look.group .paren) tokens || Look.third (Look.op "::") tokens) then
      some "a method call"
    else some "a field access"
  else if Look.op "?" tokens then some "`?`"
  else if Look.group .bracket tokens then some "indexing"
  else if Look.group .paren tokens then some "a function call"
  else none

/-- The operator that follows an expression, with its right operand; nothing if no operator binds
tightly enough. -/
def operatorAfter (rules : Rules) (left : Expr) (allowStruct : Bool) (base : Precedence) :
    Parser (Option Expr) := do
  if left.kind = .range then return none
  else
    match binaryOperator? (← get).tokens with
    | some (text, precedence) =>
      if precedence.rank < base.rank then return none
      else if precedence = .compare && left.kind = .comparison then
        violated "comparison operators cannot be chained"
      else
        let sign ← op text
        let right ← rightOperand rules allowStruct precedence
        return some ⟨if precedence = .compare then .comparison else .other,
          left.tokens ++ sign ++ right.tokens⟩
    | none =>
      if base.rank ≤ Precedence.assign.rank && (← look startsAssign) then
        let sign ← op "="
        let right ← rightOperand rules allowStruct .assign
        return some ⟨.other, left.tokens ++ sign ++ right.tokens⟩
      else if base.rank ≤ Precedence.range.rank && (← look (Look.op "..")) then
        some <$> rangeAfter rules left.tokens allowStruct
      else if base.rank ≤ Precedence.cast.rank && (← look (Look.word "as")) then
        let keyword ← word "as"
        let type ← castType rules
        match afterCast (← get).tokens with
        | some what => violated ("casts cannot be followed by " ++ what)
        | none => return some ⟨.other, left.tokens ++ keyword ++ type.tokens⟩
      else return none

/-- An expression with the operators that follow it and bind at least so tightly. -/
def climb (rules : Rules) (left : Expr) (allowStruct : Bool) (base : Precedence) :
    Parser Expr := do
  go left (← rounds)
where
  /-- Take in operators, at most so many. -/
  go (left : Expr) : Nat → Parser Expr
    | 0 => pure left
    | n + 1 => do
      match ← operatorAfter rules left allowStruct base with
      | some wider => go wider n
      | none => return left

/-- An expression. -/
def expr (rules : Rules) (allowStruct : Bool) : Parser Expr := do
  let first ← rules.unary allowStruct
  rules.climb first allowStruct .lowest

/-! ## Operands -/

/-- Attributes before an expression. -/
def exprAttributes (rules : Rules) : Parser Tokens := do
  let found ← repeatWhile (fun ts => !Look.group .invisible ts && Look.op "#" ts)
    (outerAttribute rules)
  return found.flatMap Attribute.tokens

/-- The arguments of a call. -/
def callTokens (rules : Rules) : Parser Tokens := enclosed .paren (commaList rules.exprTokens)

/-- The parts of a number with points in it, each an index of a tuple field. -/
def indexTokens (pos : Pos) : List (List Char) → Parser Tokens
  | [] => pure []
  | [part] => indexToken part
  | part :: rest => do
    let first ← indexToken part
    return first ++ Token.operator pos ['.'] ++ (← indexTokens pos rest)
where
  /-- One index. -/
  indexToken (part : List Char) : Parser Tokens := fun s =>
    match tupleIndex ⟨[.literal (String.ofList part) pos], pos, .invisible, none⟩ with
    | .ok (tokens, _) => .ok (tokens, s)
    | .error error => .error ⟨pos, error.cause⟩

/-- The pieces of a text between points. -/
def splitPoints (cs : List Char) : List (List Char) :=
  cs.splitOn '.'

/-- What follows a point: an index written as a fraction, the await keyword, a method, a field. -/
def memberAfter (rules : Rules) : Parser Tokens := do
  let dot ← op "."
  match lit? (← get).tokens with
  | some (⟨text, some (.fraction _), pos, _⟩, rest) =>
    modify fun s => { s with tokens := rest }
    let cs := text.toList
    if cs.getLast? = some '.' then
      let indices ← indexTokens pos (splitPoints cs.dropLast)
      return dot ++ indices ++ Token.operator pos ['.'] ++ (← plain)
    else return dot ++ (← indexTokens pos (splitPoints cs))
  | _ => return dot ++ (← plain)
where
  /-- The await keyword, a method call, or a field. -/
  plain : Parser Tokens := do
    if ← look (Look.word "await") then word "await"
    else
      let (named, name) ← member
      if named && (← look (Look.op "::")) then
        let args ← angleArgs rules
        return name ++ args.tokens ++ (← callTokens rules)
      else if named && (← look (Look.group .paren)) then return name ++ (← callTokens rules)
      else return name

/-- The calls, members and indices after an operand. -/
def trailers (rules : Rules) (first : Expr) : Parser Expr := do
  go first (← rounds)
where
  /-- Take them in, at most so many. -/
  go (operand : Expr) : Nat → Parser Expr
    | 0 => pure operand
    | n + 1 => do
      let isRange := operand.kind = .range
      if ← look (Look.group .paren) then
        go ⟨.other, operand.tokens ++ (← callTokens rules)⟩ n
      else if !isRange && (← look fun ts => Look.op "." ts && !Look.op ".." ts) then
        go ⟨.other, operand.tokens ++ (← memberAfter rules)⟩ n
      else if ← look (Look.group .bracket) then
        go ⟨.other, operand.tokens ++ (← enclosed .bracket rules.exprTokens)⟩ n
      else if !isRange && (← look (Look.op "?")) then
        go ⟨.other, operand.tokens ++ (← op "?")⟩ n
      else return operand

/-- A field of a struct value. -/
def fieldValue (rules : Rules) : Parser Tokens := do
  let attrs ← outerTokens rules
  let (named, name) ← member
  if !named || (← look (Look.op ":")) then
    let colon ← op ":"
    return attrs ++ name ++ colon ++ (← rules.exprTokens)
  else return attrs ++ name

/-- The inside of the braces of a struct value. -/
def structFields (rules : Rules) : Parser Tokens := do
  go (← rounds)
where
  /-- The fields, at most so many. -/
  go : Nat → Parser Tokens
    | 0 => pure []
    | n + 1 => do
      if ← atEnd then return []
      else if ← look (Look.op "..") then
        let dots ← op ".."
        return dots ++ (← optionally (fun ts => !ts.isEmpty) rules.exprTokens)
      else
        let field ← fieldValue rules
        if ← atEnd then return field
        else
          let comma ← op ","
          return field ++ comma ++ (← go n)

/-- The macro call or the struct value that a path begins, if it begins one. -/
def pathValue? (rules : Rules) (found : QPath) (allowStruct : Bool) : Parser (Option Expr) := do
  let called ← look fun ts => Look.op "!" ts && !Look.op "!=" ts
  if found.words?.isSome && called then
    let bang ← op "!"
    let (delim, body, opening, closing) ← callBody
    return some ⟨if delim = .brace then .bracedCall else .other,
      found.tokens ++ bang ++ [.group delim body opening closing]⟩
  else if allowStruct && (← look (Look.group .brace)) then
    return some ⟨.other, found.tokens ++ (← enclosed .brace (structFields rules))⟩
  else return none

/-- What a path begins: a macro call, a struct value, or the path alone. -/
def afterPath (rules : Rules) (found : QPath) (allowStruct : Bool) : Parser Expr := do
  return (← pathValue? rules found allowStruct).getD ⟨.other, found.tokens⟩

/-- Elements after the first one: commas and expressions up to the end. -/
def furtherElements (rules : Rules) : Parser Tokens := do
  go (← rounds)
where
  /-- The elements, at most so many. -/
  go : Nat → Parser Tokens
    | 0 => pure []
    | n + 1 => do
      if ← atEnd then return []
      else
        let comma ← op ","
        if ← atEnd then return comma
        else
          let next ← rules.exprTokens
          return comma ++ next ++ (← go n)

/-- The inside of parentheses: nothing, one expression, or a tuple. -/
def parenTokens (rules : Rules) : Parser Tokens := do
  if ← atEnd then return []
  else
    let first ← rules.exprTokens
    return first ++ (← furtherElements rules)

/-- The inside of brackets: elements, or an element and how often it is repeated. -/
def bracketTokens (rules : Rules) : Parser Tokens := do
  if ← atEnd then return []
  else
    let first ← rules.exprTokens
    if ← look (Look.any [List.isEmpty, Look.op ","]) then
      return first ++ (← furtherElements rules)
    else if ← look (Look.op ";") then
      let semicolon ← op ";"
      return first ++ semicolon ++ (← rules.exprTokens)
    else violated "expected `,` or `;`"

/-- A parameter of a closure. -/
def closureParam (rules : Rules) : Parser Tokens := do
  let attrs ← outerTokens rules
  let name ← rules.pattern
  let type ← optionally (Look.op ":") (seq [op ":", rules.typeTokens])
  return attrs ++ name.tokens ++ type

/-- A closure. A result type needs a block as the body. -/
def closure (rules : Rules) (allowStruct : Bool) : Parser Tokens := do
  let quantified ← binder? rules
  let marks ← seq [word? "const", word? "static", word? "async", word? "move"]
  let left ← op "|"
  let params ← separatedUntil (Look.op "|") "," (closureParam rules)
  let right ← op "|"
  let head := binderTokens quantified ++ marks ++ left ++ separatedTokens "," params ++ right
  if ← look (Look.op "->") then
    return head ++ (← seq [op "->", rules.typeTokens, rules.block])
  else return head ++ (← rules.expr allowStruct).tokens

/-- Whether an expression can begin here. -/
def startsExpr : Tokens → Bool :=
  Look.any [Look.anyWord, Look.group .paren, Look.group .bracket, Look.group .brace, lookLit,
    fun ts => Look.op "!" ts && !Look.op "!=" ts,
    fun ts => Look.op "-" ts && !Look.op "-=" ts && !Look.op "->" ts,
    fun ts => Look.op "*" ts && !Look.op "*=" ts, fun ts => Look.op "|" ts && !Look.op "|=" ts,
    fun ts => Look.op "&" ts && !Look.op "&=" ts, Look.op "..",
    fun ts => Look.op "<" ts && !Look.op "<=" ts && !Look.op "<<=" ts, Look.op "::",
    Look.lifetime, Look.op "#"]

/-- An expression if one can begin here. -/
def exprOpt (rules : Rules) : Parser Tokens := optionally startsExpr rules.exprTokens

/-- A `break` with its label and its value. A labelled loop as the value needs parentheses. -/
def breakExpr (rules : Rules) (allowStruct : Bool) : Parser Tokens := do
  let keyword ← word "break"
  let pos ← here
  if ← look fun ts => Look.lifetime ts && Look.second (Look.op ":") ts then
    let _ ← rules.expr true
    failAt pos (.violated "parentheses required")
  else
    let label ← lifetimeOpt
    if ← look fun ts => startsExpr ts && (allowStruct || !Look.group .brace ts) then
      return keyword ++ label ++ (← rules.exprTokens)
    else return keyword ++ label

/-! ## Constructs with blocks -/

/-- A condition, in which a brace after a path begins the block. -/
def condition (rules : Rules) : Parser Tokens := Expr.tokens <$> rules.expr false

/-- A condition with its branches. -/
def ifExpr (rules : Rules) : Parser Tokens := do
  go (← rounds)
where
  /-- The clauses, at most so many. -/
  go : Nat → Parser Tokens
    | 0 => pure []
    | n + 1 => do
      let clause ← seq [word "if", condition rules, rules.block]
      if ← look (Look.word "else") then
        let keyword ← word "else"
        let rest ← choose
          [("`if`", Look.word "if", go n), ("curly braces", Look.group .brace, rules.block)]
        return clause ++ keyword ++ rest
      else return clause

/-- A pattern that is matched inside a condition. -/
def letExpr (rules : Rules) (allowStruct : Bool) : Parser Tokens := do
  let head ← seq [word "let", alternativesTokens rules, op "="]
  let left ← rules.unary allowStruct
  return head ++ (← rules.climb left allowStruct .compare).tokens

/-- Whether a match arm with this body needs no comma after it. -/
def Expr.endsArm (body : Expr) : Bool := body.kind = .block

/-- An arm of a match. -/
def arm (rules : Rules) : Parser Tokens := do
  let head ← seq [outerTokens rules, alternativesTokens rules,
    optionally (Look.word "if") (seq [word "if", rules.exprTokens]), op "=>"]
  let body ← rules.early
  let needsComma := !body.endsArm && !(← atEnd)
  let comma ← if needsComma then op "," else opOpt ","
  return head ++ body.tokens ++ comma

/-- A match. -/
def matchExpr (rules : Rules) : Parser Tokens := do
  let head ← seq [word "match", condition rules]
  let arms ← enclosed .brace do
    let attrs ← innerTokens rules
    let arms ← repeatWhile (fun ts => !ts.isEmpty) (arm rules)
    return attrs ++ arms.flatten
  return head ++ arms

/-- A loop over a condition. -/
def whileExpr (rules : Rules) : Parser Tokens :=
  seq [word "while", condition rules, blockWithAttributes rules]

/-- A loop over a sequence. -/
def forExpr (rules : Rules) : Parser Tokens :=
  seq [word "for", alternativesTokens rules, word "in", condition rules,
    blockWithAttributes rules]

/-- A loop without a condition. -/
def loopExpr (rules : Rules) : Parser Tokens := seq [word "loop", blockWithAttributes rules]

/-- A labelled loop or block. -/
def labelled (rules : Rules) : Parser Tokens := do
  let label ← lifetime
  let colon ← op ":"
  let body ←
    if ← look (Look.word "while") then whileExpr rules
    else if ← look (Look.word "for") then forExpr rules
    else if ← look (Look.word "loop") then loopExpr rules
    else if ← look (Look.group .brace) then blockWithAttributes rules
    else violated "expected loop or block expression"
  return label.tokens ++ colon ++ body

/-- A built-in construct, kept as its tokens. -/
def builtin : Parser Tokens := do
  let before ← get
  let _ ← word "builtin"
  let _ ← op "#"
  let _ ← ident
  let _ ← within .paren (modify fun s => { s with tokens := [] })
  since before

/-- Whether a closure comes next. -/
def startsClosure (tokens : Tokens) : Bool :=
  Look.op "|" tokens || Look.word "move" tokens ||
    (Look.word "for" tokens && Look.second (Look.op "<") tokens &&
      Look.third (Look.any [Look.lifetime, Look.op ">"]) tokens) ||
    (Look.word "const" tokens && !Look.second (Look.group .brace) tokens) ||
    Look.word "static" tokens ||
    (Look.word "async" tokens && Look.second (Look.any [Look.op "|", Look.word "move"]) tokens)

/-- Whether an expression that begins with a path comes next. -/
def startsPath (tokens : Tokens) : Bool :=
  Look.any [Look.ident, Look.op "::", Look.op "<", Look.words pathWords] tokens ||
    (Look.word "try" tokens && Look.second (Look.any [Look.op "!", Look.op "::"]) tokens)

/-- The path that makes up everything that is left, if one does. -/
def wholePath? (rules : Rules) : Parser (Option QPath) := do
  if ← look fun ts => startsPath ts && !Look.group .invisible ts then
    match ← ahead (qpath rules true) with
    | some (found, after) =>
      if after.tokens.isEmpty then
        resume after
        return some found
      else return none
    | none => return none
  else return none

/-- An expression in an invisible group. A path goes on after it. -/
def groupExpr (rules : Rules) (allowStruct : Bool) : Parser Expr := do
  let ((path?, inner), opening, closing) ← invisible do
    match ← wholePath? rules with
    | some found => return (some found, ⟨.other, found.tokens⟩)
    | none => return (none, ← rules.expr true)
  let kind := if inner.kind = .block then ExprKind.block else .other
  let group : Expr := ⟨kind, [.group .invisible inner.tokens opening closing]⟩
  match path? with
  | none => return group
  | some found =>
    let rest ← moreSegments rules true pathGoesOn
    let longer := { found with segments := found.segments ++ rest }
    let alone : Expr := if rest.isEmpty then group else ⟨.other, longer.tokens⟩
    return (← pathValue? rules longer allowStruct).getD alone

/-- The constructs with an expression of their own, each with the test that recognises it. -/
def atoms (rules : Rules) (allowStruct : Bool) : List ((Tokens → Bool) × Parser Expr) :=
  [(Look.group .invisible, groupExpr rules allowStruct),
    (lookLit, plainExpr (Lit.tokens <$> lit)),
    (fun ts => Look.word "async" ts && (Look.second (Look.group .brace) ts ||
        (Look.second (Look.word "move") ts && Look.third (Look.group .brace) ts)),
      plainExpr (seq [word "async", word? "move", rules.block])),
    (fun ts => Look.word "try" ts && Look.second (Look.group .brace) ts,
      blockExpr (seq [word "try", rules.block])),
    (startsClosure, plainExpr (closure rules allowStruct)),
    (fun ts => Look.word "builtin" ts && Look.second (Look.op "#") ts, plainExpr builtin),
    (startsPath, do afterPath rules (← qpath rules true) allowStruct),
    (Look.group .paren, plainExpr (enclosed .paren (parenTokens rules))),
    (Look.word "break", plainExpr (breakExpr rules allowStruct)),
    (Look.word "continue", plainExpr (seq [word "continue", lifetimeOpt])),
    (Look.word "return", plainExpr (seq [word "return", exprOpt rules])),
    (Look.word "become", plainExpr (seq [word "become", rules.exprTokens])),
    (Look.group .bracket, plainExpr (enclosed .bracket (bracketTokens rules))),
    (Look.word "let", plainExpr (letExpr rules allowStruct)),
    (Look.word "if", blockExpr (ifExpr rules)),
    (Look.word "while", blockExpr (whileExpr rules)),
    (Look.word "for", blockExpr (forExpr rules)),
    (Look.word "loop", blockExpr (loopExpr rules)),
    (Look.word "match", blockExpr (matchExpr rules)),
    (Look.word "yield", plainExpr (seq [word "yield", exprOpt rules])),
    (Look.word "unsafe", blockExpr (seq [word "unsafe", blockWithAttributes rules])),
    (Look.word "const", blockExpr (constBlock rules)),
    (Look.group .brace, blockExpr (blockWithAttributes rules)),
    (Look.op "..", rangeAfter rules [] allowStruct),
    (Look.word "_", plainExpr (word "_")),
    (Look.lifetime, blockExpr (labelled rules))]

/-- An operand without anything before or after it. -/
def atom (rules : Rules) (allowStruct : Bool) : Parser Expr := do
  let tokens := (← get).tokens
  match (atoms rules allowStruct).find? fun entry => entry.1 tokens with
  | some (_, parser) => parser
  | none => violated "expected an expression"

/-- The address of an operand. -/
def addressOf (rules : Rules) (allowStruct : Bool) : Parser Tokens := do
  let sign ← op "&"
  let raw ← optionally
    (fun ts => Look.word "raw" ts && Look.second (Look.words ["mut", "const"]) ts) (word "raw")
  let isMut ← word? "mut"
  let isConst ← if raw.isEmpty || !isMut.isEmpty then pure [] else word "const"
  return sign ++ raw ++ isMut ++ isConst ++ (← rules.unary allowStruct).tokens

/-- An operand with the operators before it and the calls and members after it. -/
def unary (rules : Rules) (allowStruct : Bool) : Parser Expr := do
  let attrs ← exprAttributes rules
  if ← look (Look.group .invisible) then
    let first ← atom rules allowStruct
    let found ← trailers rules first
    return ⟨found.kind, attrs ++ found.tokens⟩
  else if ← look (Look.op "&") then
    return ⟨.other, attrs ++ (← addressOf rules allowStruct)⟩
  else if ← look (Look.any [Look.op "*", Look.op "!", Look.op "-"]) then
    let tokens := (← get).tokens
    let sign ← op ((["*", "!", "-"].find? fun text => Look.op text tokens).getD "-")
    return ⟨.other, attrs ++ sign ++ (← rules.unary allowStruct).tokens⟩
  else
    let first ← atom rules allowStruct
    let found ← trailers rules first
    if found.kind = .range && !attrs.isEmpty then
      failAt (rangePos found.tokens)
        (.violated "attributes are not allowed on range expressions starting with `..`")
    else return ⟨found.kind, attrs ++ found.tokens⟩
where
  /-- Where a range begins. -/
  rangePos : Tokens → Pos
    | token :: _ => token.pos
    | [] => Pos.callSite

/-- The block-like constructs that end an expression early. -/
def earlyAtoms (rules : Rules) : List ((Tokens → Bool) × Parser Expr) :=
  [(Look.word "if", blockExpr (ifExpr rules)),
    (Look.word "while", blockExpr (whileExpr rules)),
    (fun ts => Look.word "for" ts && !(Look.second (Look.op "<") ts &&
        Look.third (Look.any [Look.lifetime, Look.op ">"]) ts), blockExpr (forExpr rules)),
    (Look.word "loop", blockExpr (loopExpr rules)),
    (Look.word "match", blockExpr (matchExpr rules)),
    (fun ts => Look.word "try" ts && Look.second (Look.group .brace) ts,
      blockExpr (seq [word "try", rules.block])),
    (Look.word "unsafe", blockExpr (seq [word "unsafe", blockWithAttributes rules])),
    (fun ts => Look.word "const" ts && Look.second (Look.group .brace) ts,
      blockExpr (constBlock rules)),
    (Look.group .brace, blockExpr (blockWithAttributes rules)),
    (Look.lifetime, blockExpr (labelled rules))]

/-- The operand at the front of a statement or a match arm. -/
def earlyOperand (rules : Rules) : Parser Expr := do
  if ← look (Look.group .invisible) then
    let inner ← groupExpr rules true
    if inner.kind = .block then return inner else trailers rules inner
  else
    let tokens := (← get).tokens
    match (earlyAtoms rules).find? fun entry => entry.1 tokens with
    | some (_, parser) => parser
    | none => rules.unary true

/-- An expression at the front of a statement or a match arm: a block-like construct ends it unless a
member or a question mark follows. -/
def early (rules : Rules) : Parser Expr := do
  let attrs ← exprAttributes rules
  let found ← earlyOperand rules
  if found.kind ≠ .block then
    rules.climb ⟨found.kind, attrs ++ found.tokens⟩ true .lowest
  else if ← look fun ts => (Look.op "." ts && !Look.op ".." ts) || Look.op "?" ts then
    let whole ← trailers rules found
    rules.climb ⟨whole.kind, attrs ++ whole.tokens⟩ true .lowest
  else return ⟨found.kind, attrs ++ found.tokens⟩

end Fieldwise.Grammar
