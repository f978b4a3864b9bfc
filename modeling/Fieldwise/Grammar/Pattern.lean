import Fieldwise.Grammar.Generics

/-!
# Patterns

A pattern without alternatives is recognised by its first tokens. Patterns are only passed through, so
their parsers return tokens.
-/

namespace Fieldwise.Grammar

open Fieldwise.Grammar.Parser

/-- A pattern about which nothing else matters. -/
def plainPattern (parser : Parser Tokens) : Parser Pattern := do
  return ⟨.other, ← parser⟩

/-- Whether a bar between alternatives comes next. -/
def startsAlternative (tokens : Tokens) : Bool :=
  Look.op "|" tokens && !Look.op "||" tokens && !Look.op "|=" tokens

/-- Alternatives between bars; a bar may stand before the first one. -/
def alternatives (rules : Rules) : Parser Pattern := do
  let lead ← opOpt "|"
  let first ← rules.pattern
  let more ← look startsAlternative
  if lead.isEmpty && !more then return first
  else
    let rest ← repeatWhile startsAlternative do
      let bar ← op "|"
      return bar ++ (← rules.pattern).tokens
    return ⟨.other, lead ++ first.tokens ++ rest.flatten⟩

/-- Alternatives as tokens. -/
def alternativesTokens (rules : Rules) : Parser Tokens := Pattern.tokens <$> alternatives rules

/-- A constant block. -/
def constBlock (rules : Rules) : Parser Tokens :=
  seq [word "const", blockWithAttributes rules]

/-- One end of a range, or nothing where the pattern ends. -/
def rangeBound (rules : Rules) : Parser Tokens := do
  if ← look endsBound then return []
  else
    let path : Parser Tokens := do
      let attrs ← outerTokens rules
      return attrs ++ (← qpath rules true).tokens
    choose
      [("literal", lookLit, Lit.tokens <$> lit), ("identifier", Look.ident, path),
        ("`::`", Look.op "::", path), ("`<`", Look.op "<", path),
        ("`self`", Look.word "self", path), ("`Self`", Look.word "Self", path),
        ("`super`", Look.word "super", path), ("`crate`", Look.word "crate", path),
        ("`const`", Look.word "const", constBlock rules)]
where
  /-- Whether a range without an end stops here. -/
  endsBound : Tokens → Bool :=
    Look.any [List.isEmpty, Look.op "|", Look.op "=", fun ts => Look.op ":" ts && !Look.op "::" ts,
      Look.op ",", Look.op ";", Look.word "if"]

/-- The operator of a range: whether it includes its end, and its tokens. Three points are an old
spelling. -/
def rangeLimits (allowOld : Bool) : Parser (Bool × Tokens) := do
  if ← look (Look.op "..=") then return (true, ← op "..=")
  else if ← look (Look.op "...") then
    if allowOld then
      let pos ← here
      let _ ← op "..."
      return (true, Token.operator pos ['.', '.', '='])
    else expected ["`..`", "`..=`"]
  else if ← look (Look.op "..") then return (false, ← op "..")
  else expected ["`..`"]

/-- The range that begins with these tokens. -/
def rangeFrom (rules : Rules) (start : Tokens) : Parser Pattern := do
  let pos ← here
  let (closed, limits) ← rangeLimits true
  let stop ← rangeBound rules
  if stop.isEmpty then
    if closed then violated "expected range upper bound"
    else return ⟨.openRange pos, start ++ limits⟩
  else return ⟨.other, start ++ limits ++ stop⟩

/-- A range without a start, or the rest of a sequence. -/
def rangeOpen (rules : Rules) : Parser Pattern := do
  let pos ← here
  let (closed, limits) ← rangeLimits false
  let stop ← rangeBound rules
  if stop.isEmpty then
    if closed then violated "expected range upper bound" else return ⟨.rest, limits⟩
  else return ⟨.openRange pos, limits ++ stop⟩

/-- A literal, or a range that begins with one. -/
def literalPattern (rules : Rules) : Parser Pattern := do
  let start ← rangeBound rules
  if ← look (Look.op "..") then rangeFrom rules start else return ⟨.other, start⟩

/-- The index of a tuple field written as a number. -/
def tupleIndex : Parser Tokens := fun s =>
  match lit? s.tokens with
  | some (found, rest) =>
    match found.kind with
    | some (.whole suffix) =>
      if !suffix.isEmpty then .error ⟨found.pos, .violated "expected unsuffixed integer"⟩
      else if found.text.startsWith "-" then
        .error ⟨found.pos, .violated "invalid digit found in string"⟩
      else if value found.text.toList < 0x100000000 then
        .ok ([.literal (toString (value found.text.toList)) found.pos],
          { s with tokens := rest })
      else .error ⟨found.pos, .violated "number too large to fit in target type"⟩
    | _ => fail (.expected ["integer literal"]) s
  | none => fail (.expected ["integer literal"]) s
where
  /-- The value of a whole number. -/
  value (cs : List Char) : Nat :=
    let (radix, skip) := Number.base cs
    ((cs.drop skip).filter fun c => c != '_').foldl (fun n c => n * radix + Text.hexValue c) 0

/-- A field by name or by index; the flag says whether it is a name. -/
def member : Parser (Bool × Tokens) := do
  if ← look Look.ident then return (true, ← identTokens)
  else if ← look (lookLitKind fun | .whole _ => true | _ => false) then
    return (false, ← tupleIndex)
  else violated "expected identifier or integer"

/-- A field of a struct pattern. -/
def fieldPattern (rules : Rules) : Parser Tokens := do
  let boxed ← word? "box"
  let byRef ← word? "ref"
  let isMut ← word? "mut"
  let marks := boxed ++ byRef ++ isMut
  let (named, name) ← if marks.isEmpty then member
    else (fun tokens => (true, tokens)) <$> identTokens
  if !named || (marks.isEmpty && (← look (Look.op ":"))) then
    let colon ← op ":"
    return name ++ colon ++ (← alternativesTokens rules)
  else return marks ++ name

/-- The inside of the braces of a struct pattern. -/
def fieldPatterns (rules : Rules) : Parser Tokens := do
  go (← rounds)
where
  /-- The fields, at most so many. -/
  go : Nat → Parser Tokens
    | 0 => pure []
    | n + 1 => do
      if ← atEnd then return []
      else
        let attrs ← outerTokens rules
        if ← look (Look.op "..") then return attrs ++ (← op "..")
        else
          let field ← fieldPattern rules
          if ← atEnd then return attrs ++ field
          else
            let comma ← op ","
            return attrs ++ field ++ comma ++ (← go n)

/-- A pattern that begins with a path. -/
def pathPattern (rules : Rules) : Parser Pattern := do
  let found ← qpath rules true
  let called ← look fun ts => Look.op "!" ts && !Look.op "!=" ts
  if found.words?.isSome && called then
    let bang ← op "!"
    let (delim, body, opening, closing) ← callBody
    return ⟨.other, found.tokens ++ bang ++ [.group delim body opening closing]⟩
  else if ← look (Look.group .brace) then
    return ⟨.other, found.tokens ++ (← enclosed .brace (fieldPatterns rules))⟩
  else if ← look (Look.group .paren) then
    return ⟨.other, found.tokens ++ (← enclosed .paren (commaList (alternativesTokens rules)))⟩
  else if ← look (Look.op "..") then rangeFrom rules found.tokens
  else return ⟨.other, found.tokens⟩

/-- A name that is bound, perhaps to what another pattern matches. -/
def bindingPattern (rules : Rules) : Parser Tokens := do
  let byRef ← word? "ref"
  let isMut ← word? "mut"
  let name ← if ← look (Look.word "self") then anyIdent else ident
  if ← look (Look.op "@") then
    let sign ← op "@"
    return byRef ++ isMut ++ [name.token] ++ sign ++ (← rules.pattern).tokens
  else return byRef ++ isMut ++ [name.token]

/-- The inside of the brackets of a slice pattern. -/
def slicePattern (rules : Rules) : Parser Tokens :=
  commaList do
    let found ← alternatives rules
    match found.kind with
    | .openRange pos =>
      failAt pos
        (.violated "range pattern is not allowed unparenthesized inside slice pattern")
    | _ => return found.tokens

/-- Whether a name goes on as a path, a call, a struct, a tuple or a range. -/
def continuesPath : Tokens → Bool :=
  Look.second (Look.any [Look.op "::", Look.op "!", Look.group .brace, Look.group .paren,
    Look.op ".."])

/-- A pattern without alternatives. -/
def pattern (rules : Rules) : Parser Pattern := do
  choose
    [("identifier", Look.any [fun ts => Look.ident ts && continuesPath ts,
        fun ts => Look.word "self" ts && Look.second (Look.op "::") ts], pathPattern rules),
      ("`::`", Look.op "::", pathPattern rules),
      ("`<`", Look.any [Look.op "<", Look.words ["Self", "super", "crate"]], pathPattern rules),
      ("`_`", Look.word "_", plainPattern (word "_")),
      ("literal", Look.any [Look.word "box", Look.op "-", lookLit], do
        if ← look (Look.word "box") then
          return ⟨.other, (← word "box") ++ (← rules.pattern).tokens⟩
        else literalPattern rules),
      ("`const`", Look.word "const", literalPattern rules),
      ("`ref`", Look.word "ref", plainPattern (bindingPattern rules)),
      ("`mut`", Look.any [Look.word "mut", Look.word "self", Look.ident],
        plainPattern (bindingPattern rules)),
      ("`&`", Look.op "&", do
        let sign ← op "&"
        let isMut ← word? "mut"
        return ⟨.other, sign ++ isMut ++ (← rules.pattern).tokens⟩),
      ("parentheses", Look.group .paren,
        plainPattern (enclosed .paren (commaList (alternativesTokens rules)))),
      ("square brackets", Look.group .bracket,
        plainPattern (enclosed .bracket (slicePattern rules))),
      ("`..`", fun ts => Look.op ".." ts && !Look.op "..." ts, rangeOpen rules),
      ("`const`", fun _ => false, plainPattern (pure []))]

end Fieldwise.Grammar
