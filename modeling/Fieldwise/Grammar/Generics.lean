import Fieldwise.Grammar.Type

/-!
# Generic parameters, where clauses and fields

The parts that structs share with the other items.
-/

namespace Fieldwise.Grammar

open Fieldwise.Grammar.Parser

/-- The bounds after a colon, up to a stop. -/
def boundsUntil (rules : Rules) (stop : Tokens → Bool) : Parser (Separated Bound) :=
  separatedWhile stop "+" (rules.bound false true)

/-- A type parameter. -/
def typeParam (rules : Rules) (attrs : List Attribute) : Parser GenericParam := do
  let more ← outerAttributes rules
  let name ← ident
  let colon ← op? ":"
  let bounds ← if colon.isSome then
      boundsUntil rules (Look.any [List.isEmpty, Look.op ",", Look.op ">", Look.op "="])
    else pure ⟨[], false⟩
  let equals ← op? "="
  let default ← if equals.isSome then some <$> rules.type true else pure none
  return .type (attrs ++ more) name bounds default

/-- A constant parameter. -/
def constParam (rules : Rules) (attrs : List Attribute) : Parser GenericParam := do
  let more ← outerAttributes rules
  let _ ← word "const"
  let name ← ident
  let _ ← op ":"
  let type ← rules.type true
  let equals ← op? "="
  let default ← if equals.isSome then some <$> constArgument rules else pure none
  return .const (attrs ++ more) name type default

/-- A generic parameter. -/
def genericParam (rules : Rules) : Parser GenericParam := do
  let attrs ← outerAttributes rules
  choose
    [("lifetime", Look.lifetime, do
        let param ← lifetimeParam rules
        return .lifetime { param with attrs := attrs ++ param.attrs }),
      ("identifier", Look.ident, typeParam rules attrs),
      ("`const`", Look.any [Look.word "const", Look.word "_"], do
        if ← look (Look.word "_") then
          return .type attrs (← anyIdent) ⟨[], false⟩ none
        else constParam rules attrs)]

/-- Generic parameters, if an angle bracket comes next. -/
def genericParams (rules : Rules) : Parser (Separated GenericParam) := do
  if ← look (Look.op "<") then
    let _ ← op "<"
    let params ← separatedUntil (Look.op ">") "," (genericParam rules)
    let _ ← op ">"
    return params
  else return ⟨[], false⟩

/-- Whether the conditions of a where clause have ended. -/
def endsConditions : Tokens → Bool :=
  Look.any [List.isEmpty, Look.group .brace, Look.op ",", Look.op ";",
    fun ts => Look.op ":" ts && !Look.op "::" ts, Look.op "="]

/-- A condition of a where clause. -/
def predicate (rules : Rules) : Parser Predicate := do
  if ← look fun ts => Look.lifetime ts && Look.second (Look.op ":") ts then
    let name ← lifetime
    let _ ← op ":"
    return .lifetime name (← lifetimeBounds (Look.any [endsConditions, Look.op ":"]))
  else
    let quantified ← binder? rules
    let bounded ← rules.type true
    let _ ← op ":"
    return .type quantified bounded (← boundsUntil rules endsConditions)

/-- A where clause, if one comes next. -/
def conditions (rules : Rules) : Parser (Separated Predicate) := do
  if ← look (Look.word "where") then
    let _ ← word "where"
    separatedWhile endsConditions "," (predicate rules)
  else return ⟨[], false⟩

/-- A where clause as tokens. -/
def conditionsTokens (rules : Rules) : Parser Tokens := do
  let found ← conditions rules
  return Generics.whereTokens ⟨⟨[], false⟩, found⟩

/-- Generic parameters as tokens. -/
def genericsTokens (rules : Rules) : Parser Tokens := do
  let found ← genericParams rules
  return Generics.tokens .declared ⟨found, ⟨[], false⟩⟩

/-- A field with a name. A placeholder in its place may stand before an unnamed group of fields. -/
def namedField (rules : Rules) (fields : Parser (Separated Field)) : Parser Field := do
  let attrs ← outerAttributes rules
  let vis ← visibility
  let unnamed ← look (Look.word "_")
  let name ← if unnamed then anyIdent else ident
  let _ ← op ":"
  if unnamed && (← look startsFields) then
    let before ← get
    let _ ← anyIdent
    let _ ← within .brace fields
    return ⟨attrs, vis, some name, .verbatim (← since before)⟩
  else return ⟨attrs, vis, some name, ← rules.type true⟩
where
  /-- Whether a struct or union without a name comes next. -/
  startsFields (tokens : Tokens) : Bool :=
    Look.word "struct" tokens ||
      (Look.word "union" tokens && Look.second (Look.group .brace) tokens)

/-- Fields with names; groups of fields may be nested so deep. -/
def namedFieldsTo (rules : Rules) : Nat → Parser (Separated Field)
  | 0 => terminated (namedField rules (failHere .tooDeep))
  | depth + 1 => terminated (namedField rules (namedFieldsTo rules depth))

/-- The inside of the braces of a struct. -/
def namedFields (rules : Rules) : Parser (Separated Field) := do
  namedFieldsTo rules (← rounds)

/-- A field without a name. -/
def tupleField (rules : Rules) : Parser Field := do
  let attrs ← outerAttributes rules
  let vis ← visibility
  return ⟨attrs, vis, none, ← rules.type true⟩

/-- The inside of the parentheses of a struct. -/
def tupleFields (rules : Rules) : Parser (Separated Field) := terminated (tupleField rules)

/-- A struct after its attributes and its visibility. -/
def struct (rules : Rules) (attrs : List Attribute) (vis : Visibility) : Parser Struct := do
  let pos ← here
  let _ ← word "struct"
  let name ← ident
  let params ← genericParams rules
  let first ← look (Look.word "where")
  let early ← conditions rules
  let build (where_ : Separated Predicate) (fields : Fields) : Struct :=
    ⟨attrs, vis, pos, name, ⟨params, where_⟩, fields⟩
  let tuple : Parser Struct := do
    let (fields, _, _) ← within .paren (tupleFields rules)
    let second ← look (Look.word "where")
    let late ← conditions rules
    if ← look (Look.op ";") then
      let _ ← op ";"
      return build late (.tuple fields)
    else expected (if second then ["`;`"] else ["`where`", "`;`"])
  let braces : Parser Struct := do
    let (fields, _, _) ← within .brace (namedFields rules)
    return build early (.named fields)
  let unit : Parser Struct := do
    let _ ← op ";"
    return build early .unit
  if first then
    choose [("curly braces", Look.group .brace, braces), ("`;`", Look.op ";", unit)]
  else
    choose
      [("`where`", fun _ => false, unit), ("parentheses", Look.group .paren, tuple),
        ("curly braces", Look.group .brace, braces), ("`;`", Look.op ";", unit)]

end Fieldwise.Grammar
