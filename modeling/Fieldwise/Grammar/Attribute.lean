import Fieldwise.Grammar.Rules

/-!
# Attributes and visibilities

An attribute is a path between square brackets after a hash sign, alone, with delimited tokens, or with
a value. Visibilities are `pub`, alone or restricted to a module.
-/

namespace Fieldwise.Grammar

open Fieldwise.Grammar.Parser

/-- The path of an attribute. -/
def attributePath : Parser ModPath := do
  if ← look (Look.word "unsafe") then
    let name ← anyIdent
    return ⟨false, [name]⟩
  else modPath

/-- What follows the path of an attribute. A lone literal is taken as it is; another attribute is
refused. -/
def attributeValue (rules : Rules) : Parser AttributeValue := do
  if ← look (Look.any [Look.group .paren, Look.group .bracket, Look.group .brace]) then
    let (delim, body, opening, closing) ← callBody
    return .list delim body opening closing
  else if ← look (Look.op "=") then
    let equals ← here
    let _ ← op "="
    let tokens := (← get).tokens
    match lit? tokens with
    | some (found, []) =>
      modify fun s => { s with tokens := [] }
      return .value equals found.tokens
    | _ =>
      if ← look fun ts => Look.op "#" ts && Look.second (Look.group .bracket) ts then
        violated "unexpected attribute inside of attribute"
      else return .value equals (← rules.expr true).tokens
  else return .word

/-- The part of an attribute after its marks. -/
def attributeBody (rules : Rules) (inner : Bool) (pos : Pos) : Parser Attribute := do
  let ((path, value), _, closing) ← within .bracket do
    let path ← attributePath
    let value ← attributeValue rules
    return (path, value)
  return ⟨inner, pos, closing, path, value⟩

/-- An attribute of what follows. -/
def outerAttribute (rules : Rules) : Parser Attribute := do
  let pos ← here
  let _ ← op "#"
  attributeBody rules false pos

/-- An attribute of what encloses it. -/
def innerAttribute (rules : Rules) : Parser Attribute := do
  let pos ← here
  let _ ← op "#"
  let _ ← op "!"
  attributeBody rules true pos

/-- The attributes of what follows. -/
def outerAttributes (rules : Rules) : Parser (List Attribute) :=
  repeatWhile (Look.op "#") (outerAttribute rules)

/-- The attributes of what encloses them. -/
def innerAttributes (rules : Rules) : Parser (List Attribute) :=
  repeatWhile (fun ts => Look.op "#" ts && Look.second (Look.op "!") ts) (innerAttribute rules)

/-- The attributes of what follows, as tokens. -/
def outerTokens (rules : Rules) : Parser Tokens := do
  return (← outerAttributes rules).flatMap Attribute.tokens

/-- The attributes of what encloses them, as tokens. -/
def innerTokens (rules : Rules) : Parser Tokens := do
  return (← innerAttributes rules).flatMap Attribute.tokens

/-- A block in braces whose first tokens may be attributes. -/
def blockWithAttributes (rules : Rules) : Parser Tokens :=
  enclosed .brace (seq [innerTokens rules, rules.statements])

/-- The module in parentheses after `pub`, if the parentheses are one: a single word, or a path
after `in`. -/
def restriction (pos : Pos) : Parser (Option Visibility) := do
  let some tokens := groupBody (← get).tokens | return none
  if Look.words ["crate", "self", "super"] tokens then
    match ← ahead (within .paren anyIdent) with
    | some ((name, _, _), after) =>
      if after.leftover.isNone then
        resume after
        return some (.inside pos false ⟨false, [name]⟩)
      else return none
    | none => return none
  else if Look.word "in" tokens then
    let (path, _, _) ← within .paren do
      let _ ← word "in"
      modPath
    return some (.inside pos true path)
  else return none
where
  /-- The inside of the parentheses that come next. -/
  groupBody (tokens : Tokens) : Option Tokens :=
    match bare tokens with
    | .group .paren body _ _ :: _ => some body
    | _ => none

/-- A visibility. An empty invisible group stands for none. -/
def visibility : Parser Visibility := do
  if ← look isEmptyUnit then
    let _ ← tree
    return .inherited
  else if ← look (Look.word "pub") then
    let pos ← here
    let _ ← word "pub"
    match ← restriction pos with
    | some found => return found
    | none => return .everywhere pos
  else return .inherited
where
  /-- Whether an invisible group without content comes next. -/
  isEmptyUnit : Tokens → Bool
    | .group .invisible [] _ _ :: _ => true
    | _ => false

/-- A visibility, as tokens. -/
def visibilityTokens : Parser Tokens := Visibility.tokens <$> visibility

/-- Whether a visibility is written at all. -/
def Visibility.isInherited : Visibility → Bool
  | .inherited => true
  | _ => false

end Fieldwise.Grammar
