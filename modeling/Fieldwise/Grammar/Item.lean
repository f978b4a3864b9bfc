import Fieldwise.Grammar.Statement

/-!
# Items

Structs are taken apart, inline modules keep the items inside them, and every other item is checked
against the grammar and passed through as tokens. Forms that the grammar admits only so that a later stage
can refuse them are passed through exactly as written.
-/

namespace Fieldwise.Grammar

open Fieldwise.Grammar.Parser

/-! ## Functions -/

/-- A calling convention, as tokens. -/
def abiTokens : Parser Tokens := do
  optionally (Look.word "extern") (seq [word "extern", optionally lookText (Lit.tokens <$> lit)])

/-- Whether the marks before `fn` come next; `safe` is a mark only inside foreign blocks. -/
def startsSignature (allowSafe : Bool) (tokens : Tokens) : Bool :=
  let start : Stream := ⟨tokens, Pos.callSite, .invisible, none⟩
  let marks : Parser Tokens := seq [word? "const", word? "async", safety, abiTokens]
  match marks start with
  | .ok (_, after) => Look.word "fn" after.tokens
  | .error _ => false
where
  /-- The mark of safety. -/
  safety : Parser Tokens := do
    if allowSafe && (← look (Look.word "safe")) then word "safe" else word? "unsafe"

/-- A receiver, and where its `self` stands. -/
def receiver (rules : Rules) : Parser (Tokens × Pos) := do
  let reference ← optionally (Look.op "&") (seq [op "&", lifetimeOpt])
  let isMut ← word? "mut"
  let pos ← here
  let self ← word "self"
  let type ← if reference.isEmpty then
      optionally (Look.op ":") (seq [op ":", rules.typeTokens])
    else pure []
  return (reference ++ isMut ++ self ++ type, pos)

/-- A parameter of a function. -/
inductive Param where
  | receiver (tokens : Tokens) (pos : Pos)
  | typed (tokens : Tokens)
  | variadic (tokens : Tokens)

/-- A parameter after its attributes. -/
def param (rules : Rules) (attrs : Tokens) : Parser Param := do
  match ← ahead (receiver rules) with
  | some ((tokens, pos), after) =>
    resume after
    return .receiver (attrs ++ tokens) pos
  | none =>
    if ← look fun ts => Look.ident ts && Look.second (Look.op "<") ts then
      return .typed (attrs ++ term "_" ++ sign ":" ++ (← rules.typeTokens))
    else
      let head ← seq [Pattern.tokens <$> rules.pattern, op ":"]
      if ← look (Look.op "...") then return .variadic (attrs ++ head ++ (← op "..."))
      else return .typed (attrs ++ head ++ (← rules.typeTokens))

/-- The parameters of a function. A receiver can only be the first. -/
def params (rules : Rules) : Parser Tokens := do
  go true false (← rounds)
where
  /-- The parameters, at most so many; the flags mark the first one and an earlier receiver. -/
  go (first received : Bool) : Nat → Parser Tokens
    | 0 => pure []
    | n + 1 => do
      if ← atEnd then return []
      else
        let attrs ← outerTokens rules
        if ← look (Look.op "...") then
          let dots ← op "..."
          return attrs ++ dots ++ (← lastComma)
        else
          match ← param rules attrs with
          | .variadic tokens => return tokens ++ (← lastComma)
          | .typed tokens => next tokens received n
          | .receiver tokens pos =>
            if received then failAt pos (.violated "unexpected second method receiver")
            else if !first then failAt pos (.violated "unexpected method receiver")
            else next tokens true n
  /-- The comma after a variadic end. -/
  lastComma : Parser Tokens := do
    if ← atEnd then return [] else op ","
  /-- Go on after a parameter. -/
  next (tokens : Tokens) (received : Bool) (n : Nat) : Parser Tokens := do
    if ← atEnd then return tokens
    else
      let comma ← op ","
      return tokens ++ comma ++ (← go false received n)

/-- A result type, as tokens. -/
def outputTokens (rules : Rules) : Parser Tokens := do
  return Ty.outputTokens (← output? rules true)

/-- A function up to its body. -/
def signature (rules : Rules) (allowSafe : Bool) : Parser Tokens :=
  seq [word? "const", word? "async", startsSignature.safety allowSafe, abiTokens, word "fn",
    identTokens, genericsTokens rules, enclosed .paren (params rules), outputTokens rules,
    conditionsTokens rules]

/-! ## Simple items -/

/-- A name or a placeholder where a constant is declared. -/
def constName : Parser Tokens :=
  choose
    [("identifier", Look.ident, identTokens),
      ("`_`", Look.word "_", do return [(← anyIdent).token])]

/-- A constant after its visibility. -/
def constItem (rules : Rules) : Parser Tokens := do
  let head ← seq [word "const", constName, genericsTokens rules]
  if ← look (Look.op "=") then
    return head ++ (← seq [op "=", rules.exprTokens, op ";"])
  else return head ++ (← constRest rules)
where
  /-- The type, the value and the conditions of a constant. -/
  constRest (rules : Rules) : Parser Tokens :=
    seq [op ":", rules.typeTokens,
      optionally (Look.op "=") (seq [op "=", rules.exprTokens]), conditionsTokens rules, op ";"]

/-- A constant inside a trait or an implementation, after its visibility. -/
def constMember (rules : Rules) : Parser Tokens :=
  seq [word "const", constName, genericsTokens rules, constItem.constRest rules]

/-- A static after its visibility. -/
def staticItem (rules : Rules) : Parser Tokens := do
  let head ← seq [word "static", word? "mut", identTokens]
  if ← look (Look.op "=") then
    return head ++ (← seq [op "=", rules.exprTokens, op ";"])
  else
    let typed ← seq [op ":", rules.typeTokens]
    if ← look (Look.op ";") then return head ++ typed ++ (← op ";")
    else return head ++ typed ++ (← seq [op "=", rules.exprTokens, op ";"])

/-- Where a type definition may have its where clause. -/
inductive ClausePlace where
  | beforeValue
  | afterValue
  | anywhere
  deriving DecidableEq

/-- A type definition after its visibility. -/
def typeItem (rules : Rules) (allowDefault : Bool) (place : ClausePlace) : Parser Tokens := do
  let head ← seq [if allowDefault then word? "default" else pure [], word "type", identTokens,
    genericsTokens rules]
  let bounds ← optionally (Look.op ":") do
    let colon ← op ":"
    let stop := Look.any [Look.word "where", Look.op "=", Look.op ";"]
    let found ← separatedUntil stop "+" (rules.bound false true)
    return colon ++ joined (sign "+") (Bound.tokensAll found.items) found.trailing
  let early ← if place = .afterValue then pure [] else conditionsTokens rules
  let value ← optionally (Look.op "=") (seq [op "=", rules.typeTokens])
  let late ← if place = .beforeValue || !early.isEmpty then pure [] else conditionsTokens rules
  return head ++ bounds ++ early ++ value ++ late ++ (← op ";")

/-- The tree after `use`. Only a braced list may hold paths that begin at the root. -/
def useTree (rules : Rules) (allowRoot : Bool) : Parser Tokens := do
  let named : Parser Tokens := do
    let name := [(← anyIdent).token]
    if ← look (Look.op "::") then
      return name ++ (← seq [op "::", rules.useTree false])
    else if ← look (Look.word "as") then
      let keyword ← word "as"
      if ← look (Look.any [Look.ident, Look.word "_"]) then
        return name ++ keyword ++ [(← anyIdent).token]
      else violated "expected identifier or underscore"
    else return name
  let list : Parser Tokens := enclosed .brace <| commaList do
    let root ← if allowRoot then opOpt "::" else pure []
    return root ++ (← rules.useTree (allowRoot && root.isEmpty))
  choose
    [("identifier", Look.ident, named), ("`self`", Look.word "self", named),
      ("`super`", Look.word "super", named), ("`crate`", Look.word "crate", named),
      ("`try`", Look.word "try", named), ("`*`", Look.op "*", op "*"),
      ("curly braces", Look.group .brace, list)]

/-- An import after its visibility. -/
def useItem (rules : Rules) : Parser Tokens := do
  let keyword ← word "use"
  let root ← opOpt "::"
  let found ← rules.useTree root.isEmpty
  return keyword ++ root ++ found ++ (← op ";")

/-- An external crate after its visibility. -/
def crateItem : Parser Tokens := do
  let head ← seq [word "extern", word "crate"]
  let name ← if ← look (Look.word "self") then anyIdent else ident
  let rename ← optionally (Look.word "as") do
    let keyword ← word "as"
    return keyword ++ [(← identOrUnderscore).token]
  return head ++ [name.token] ++ rename ++ (← op ";")

/-- A macro call as an item; its parentheses or brackets need a semicolon. -/
def callItem (allowName : Bool) : Parser Tokens := do
  let path ← modPath
  let bang ← op "!"
  let name ← if allowName then
      optionally (Look.any [Look.ident, Look.word "try"]) (do return [(← anyIdent).token])
    else pure []
  let (delim, body, opening, closing) ← callBody
  let semicolon ← if delim = .brace then pure [] else op ";"
  return path.tokens ++ bang ++ name ++ [.group delim body opening closing] ++ semicolon

/-- Skip everything to the end of the stream. -/
def skipAll : Parser Unit := modify fun s => { s with tokens := [] }

/-- A declarative macro. -/
def macroItem : Parser Tokens := do
  let before ← get
  let _ ← word "macro"
  let _ ← ident
  let hasParams ← look (Look.group .paren)
  if hasParams then
    let _ ← within .paren skipAll
  if ← look (Look.group .brace) then
    let _ ← within .brace skipAll
    since before
  else expected (if hasParams then ["curly braces"] else ["parentheses", "curly braces"])

/-! ## Types with bodies -/

/-- A variant of an enum; a visibility before it is dropped. -/
def variant (rules : Rules) : Parser Tokens := do
  let attrs ← outerTokens rules
  let _ ← visibility
  let name ← identTokens
  let fields ←
    if ← look (Look.group .brace) then enclosed .brace (fieldsTokens <$> namedFields rules)
    else if ← look (Look.group .paren) then enclosed .paren (fieldsTokens <$> tupleFields rules)
    else pure []
  let value ← optionally (Look.op "=") (seq [op "=", rules.exprTokens])
  return attrs ++ name ++ fields ++ value

/-- An enum after its visibility. -/
def enumItem (rules : Rules) : Parser Tokens :=
  seq [word "enum", identTokens, genericsTokens rules, conditionsTokens rules,
    enclosed .brace (commaList (variant rules))]

/-- A union after its visibility. -/
def unionItem (rules : Rules) : Parser Tokens :=
  seq [word "union", identTokens, genericsTokens rules, conditionsTokens rules,
    enclosed .brace (fieldsTokens <$> namedFields rules)]

/-- The words with which a macro call as a member can begin. -/
def memberCall (parser : Parser Tokens) : List (String × (Tokens → Bool) × Parser Tokens) :=
  [("identifier", Look.ident, parser), ("`self`", Look.word "self", parser),
    ("`super`", Look.word "super", parser), ("`crate`", Look.word "crate", parser),
    ("`::`", Look.op "::", parser)]

/-- The body of a function inside a trait, or the semicolon in its place. -/
def traitFunctionBody (rules : Rules) : Parser Tokens :=
  choose
    [("curly braces", Look.group .brace, blockWithAttributes rules),
      ("`;`", Look.op ";", op ";")]

/-- A member of a trait. -/
def traitMember (rules : Rules) : Parser Tokens := do
  let before ← get
  let attrs ← outerTokens rules
  let vis ← visibility
  let isDefault ← word? "default"
  let function := seq [signature rules false, traitFunctionBody rules]
  let constant : Parser Tokens := do
    let after := (dropTree (← get).tokens).getD []
    if Look.any [Look.ident, Look.word "_"] after then constMember rules
    else if Look.words ["async", "unsafe", "extern", "fn"] after then function
    else
      let _ ← word "const"
      expected ["identifier", "`_`", "`async`", "`unsafe`", "`extern`", "`fn`"]
  let body ← choose
    ([("`fn`", fun ts => Look.word "fn" ts || startsSignature false ts, function),
      ("`const`", Look.word "const", constant),
      ("`type`", Look.word "type", typeItem rules false .afterValue)] ++
      (if vis.isInherited && isDefault.isEmpty then memberCall (callItem false) else []))
  if vis.isInherited && isDefault.isEmpty then return attrs ++ body else since before

/-- A trait after its name and its parameters. -/
def traitBody (rules : Rules) : Parser Tokens := do
  let supers ← optionally (Look.op ":") do
    let colon ← op ":"
    let stop := Look.any [Look.word "where", Look.group .brace]
    let found ← separatedUntil stop "+" (rules.bound false true)
    return colon ++ joined (sign "+") (Bound.tokensAll found.items) found.trailing
  let clause ← conditionsTokens rules
  let body ← enclosed .brace do
    let attrs ← innerTokens rules
    let members ← repeatWhile (fun ts => !ts.isEmpty) (traitMember rules)
    return attrs ++ members.flatten
  return supers ++ clause ++ body

/-- A trait alias after its name and its parameters. -/
def traitAlias (rules : Rules) : Parser Tokens := do
  let equals ← op "="
  let stop := Look.any [Look.word "where", Look.op ";"]
  let found ← separatedUntil stop "+" (rules.bound false true)
  let clause ← conditionsTokens rules
  return equals ++ joined (sign "+") (Bound.tokensAll found.items) found.trailing ++ clause ++
    (← op ";")

/-- A trait or a trait alias after its visibility. -/
def traitOrAlias (rules : Rules) : Parser Tokens := do
  let head ← seq [word "trait", identTokens, genericsTokens rules]
  let rest ← choose
    [("curly braces", Look.group .brace, traitBody rules), ("`:`", Look.op ":", traitBody rules),
      ("`where`", Look.word "where", traitBody rules), ("`=`", Look.op "=", traitAlias rules)]
  return head ++ rest

/-- A trait with its marks, after its visibility. -/
def traitItem (rules : Rules) : Parser Tokens :=
  seq [word? "unsafe", word? "auto", word "trait", identTokens, genericsTokens rules,
    traitBody rules]

/-- A function inside an implementation; its body may be missing. -/
def implFunction (rules : Rules) : Parser Tokens := do
  let head ← seq [visibilityTokens, word? "default", signature rules false]
  if ← look (Look.op ";") then return head ++ (← op ";")
  else return head ++ (← blockWithAttributes rules)

/-- A member of an implementation. -/
def implMember (rules : Rules) : Parser Tokens := do
  let attrs ← outerTokens rules
  let start ← get
  let vis ← visibility
  let marked ← look fun ts => Look.word "default" ts && !Look.second (Look.op "!") ts
  let isDefault ← if marked then word "default" else pure []
  let lead := vis.tokens ++ isDefault
  let again (parser : Parser Tokens) : Parser Tokens := do
    set start
    parser
  let body ← choose
    ((if marked then [] else [("`default`", fun _ => false, pure [])]) ++
      [("`fn`", fun ts => Look.word "fn" ts || startsSignature false ts,
          again (implFunction rules)),
        ("`const`", Look.word "const", (lead ++ ·) <$> constMember rules),
        ("`type`", Look.word "type",
          again (seq [visibilityTokens, typeItem rules true .afterValue]))] ++
      (if vis.isInherited && !marked then memberCall (callItem false) else []))
  return attrs ++ body

/-- Whether an angle bracket after `impl` begins parameters rather than a path. -/
def startsGenerics (tokens : Tokens) : Bool :=
  Look.op "<" tokens &&
    (Look.second (Look.any [Look.op ">", Look.op "#", Look.word "const"]) tokens ||
      (Look.second (Look.any [Look.lifetime, Look.ident]) tokens &&
        Look.third (Look.any [Look.op ":", Look.op ",", Look.op ">", Look.op "="]) tokens))

/-- An implementation after its visibility. -/
def implItem (rules : Rules) : Parser Tokens := do
  let marks ← seq [word? "default", word? "unsafe", word "impl"]
  let generics ← optionally startsGenerics (genericsTokens rules)
  let constant ← optionally
    (fun ts => Look.word "const" ts || (Look.op "?" ts && Look.second (Look.word "const") ts))
    (seq [opOpt "?", word "const"])
  let pos ← here
  let negative ← optionally (fun ts => Look.op "!" ts && !Look.second (Look.group .brace) ts) (op "!")
  let first ← rules.typeTokens
  let rest ← optionally (Look.word "for") (seq [word "for", rules.typeTokens])
  if !negative.isEmpty && rest.isEmpty then
    failAt pos (.violated "inherent impls cannot be negative")
  else
    let clause ← conditionsTokens rules
    let body ← enclosed .brace do
      let attrs ← innerTokens rules
      let members ← repeatWhile (fun ts => !ts.isEmpty) (implMember rules)
      return attrs ++ members.flatten
    return marks ++ generics ++ constant ++ negative ++ first ++ rest ++ clause ++ body

/-! ## Foreign blocks -/

/-- A member of a foreign block. -/
def foreignMember (rules : Rules) : Parser Tokens := do
  let attrs ← outerTokens rules
  let vis ← visibility
  let function : Parser Tokens := do
    let head ← signature rules true
    if ← look (Look.group .brace) then return head ++ (← blockWithAttributes rules)
    else return head ++ (← op ";")
  let static : Parser Tokens := do
    let safety ← startsSignature.safety true
    return safety ++ (← seq [word "static", word? "mut", identTokens, op ":", rules.typeTokens,
      optionally (Look.op "=") (seq [op "=", rules.exprTokens]), op ";"])
  let startsStatic (ts : Tokens) : Bool :=
    Look.word "static" ts ||
      (Look.words ["unsafe", "safe"] ts && Look.second (Look.word "static") ts)
  let body ← choose
    ([("`fn`", fun ts => Look.word "fn" ts || startsSignature true ts, function),
      ("`static`", startsStatic, static),
      ("`type`", Look.word "type", typeItem rules false .anywhere)] ++
      (if vis.isInherited then memberCall (callItem false) else []))
  return attrs ++ vis.tokens ++ body

/-- A foreign block. -/
def foreignItem (rules : Rules) : Parser Tokens := do
  let head ← seq [word? "unsafe", word "extern", optionally lookText (Lit.tokens <$> lit)]
  let body ← enclosed .brace do
    let attrs ← innerTokens rules
    let members ← repeatWhile (fun ts => !ts.isEmpty) (foreignMember rules)
    return attrs ++ members.flatten
  return head ++ body

/-- What begins with `extern`: a crate or a foreign block. -/
def externItem (rules : Rules) : Parser Tokens := do
  let after := (dropTree (← get).tokens).getD []
  if Look.word "crate" after then crateItem
  else if Look.group .brace after then foreignItem rules
  else if lookText after then
    if Look.second (Look.group .brace) after then foreignItem rules
    else
      let _ ← word "extern"
      let _ ← lit
      expected ["curly braces"]
  else
    let _ ← word "extern"
    expected ["`crate`", "curly braces", "string literal"]

/-! ## All items -/

/-- A module after its visibility: its items, if it has them inline, and its tokens. -/
def moduleItem (rules : Rules) : Parser (Option (List Item) × Tokens) := do
  let head ← seq [word? "unsafe", word "mod"]
  let name ← if ← look (Look.word "try") then anyIdent else ident
  let inline : Parser (Option (List Item) × Tokens) := do
    let ((attrs, items), opening, closing) ← within .brace do
      let attrs ← innerTokens rules
      let items ← repeatWhile (fun ts => !ts.isEmpty) rules.item
      return (attrs, items)
    let body := attrs ++ items.flatMap Item.tokens
    return (some items, head ++ [name.token, .group .brace body opening closing])
  choose
    [("`;`", Look.op ";", do return (none, head ++ [name.token] ++ (← op ";"))),
      ("curly braces", Look.group .brace, inline)]

/-- A function as an item, or a signature with a semicolon, which a later stage refuses. -/
def functionItem (rules : Rules) : Parser Tokens := do
  let head ← signature rules false
  if ← look (Look.op ";") then return head ++ (← op ";")
  else return head ++ (← blockWithAttributes rules)

/-- What begins with `unsafe`. -/
def unsafeItem (rules : Rules) (lead : Tokens) : Parser Item := do
  let after := (dropTree (← get).tokens).getD []
  if Look.word "trait" after || (Look.word "auto" after && Look.second (Look.word "trait") after)
  then return .other (lead ++ (← traitItem rules))
  else if Look.word "impl" after then return .other (lead ++ (← implItem rules))
  else if Look.word "extern" after then return .other (lead ++ (← foreignItem rules))
  else if Look.word "mod" after then
    let (items, tokens) ← moduleItem rules
    return .module (items.getD []) (lead ++ tokens)
  else
    let _ ← word "unsafe"
    expected ["`trait`", "`auto`", "`impl`", "`extern`", "`mod`"]

/-- An item. -/
def item (rules : Rules) : Parser Item := do
  let attrs ← outerAttributes rules
  let vis ← visibility
  let lead := attrs.flatMap Attribute.tokens ++ vis.tokens
  let other (parser : Parser Tokens) : Parser Item := do
    return .other (lead ++ (← parser))
  let call := other (callItem true)
  choose
    ([("`fn`", fun ts => Look.word "fn" ts || startsSignature false ts,
        other (functionItem rules)),
      ("`extern`", Look.word "extern", other (externItem rules)),
      ("`use`", Look.word "use", other (useItem rules)),
      ("`static`", Look.word "static", other (staticItem rules)),
      ("`const`", Look.word "const", other (constItem rules)),
      ("`unsafe`", Look.word "unsafe", unsafeItem rules lead),
      ("`mod`", Look.word "mod", do
        let (items, tokens) ← moduleItem rules
        return .module (items.getD []) (lead ++ tokens)),
      ("`type`", Look.word "type", other (typeItem rules false .beforeValue)),
      ("`struct`", Look.word "struct", do return .struct (← struct rules attrs vis)),
      ("`enum`", Look.word "enum", other (enumItem rules)),
      ("`union`", fun ts => Look.word "union" ts && Look.second Look.ident ts,
        other (unionItem rules)),
      ("`trait`", Look.word "trait", other (traitOrAlias rules)),
      ("`auto`", fun ts => Look.word "auto" ts && Look.second (Look.word "trait") ts,
        other (traitItem rules)),
      ("`impl`", Look.word "impl", other (implItem rules)),
      ("`default`", fun ts => Look.word "default" ts && !Look.second (Look.op "!") ts,
        other (implItem rules)),
      ("`macro`", Look.word "macro", other macroItem)] ++
      (if vis.isInherited then
        [("identifier", Look.ident, call), ("`self`", Look.word "self", call),
          ("`super`", Look.word "super", call), ("`crate`", Look.word "crate", call),
          ("`::`", Look.op "::", call)]
      else []))

end Fieldwise.Grammar
