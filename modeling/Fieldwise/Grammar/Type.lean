import Fieldwise.Grammar.Path

/-!
# Types

A type is recognised by its first token, and the message of a failed parse lists what it could have been.
Where several bounds may be joined, a path followed by a plus sign is a trait object written without its
keyword.
-/

namespace Fieldwise.Grammar

open Fieldwise.Grammar.Parser

/-- Whether a bound is a trait. -/
def Bound.isTrait : Bound → Bool
  | .trait _ _ _ _ _ => true
  | _ => false

/-- Whether a bound is a trait, constant or not. -/
def Bound.isAnyTrait : Bound → Bool
  | .verbatim _ => true
  | bound => bound.isTrait

/-- The bounds of a trait object, of which one has to be a trait. -/
def objectBounds (rules : Rules) (pos : Pos) (allowPlus : Bool) : Parser (Separated Bound) := do
  let found ← bounds rules allowPlus false false
  if found.items.any Bound.isTrait then return found
  else failAt pos (.violated "at least one trait is required for an object type")

/-- A trait object that begins with its keyword or with a lifetime. -/
def traitObject (rules : Rules) : Parser Ty := do
  let pos ← here
  let keyword ← word? "dyn"
  let found ← objectBounds rules pos true
  return .traitObject (!keyword.isEmpty) found.items found.trailing

/-- The bounds after the first one of a trait object without its keyword. -/
def furtherBounds (rules : Rules) (first : Bound) : Parser Ty := do
  let rest ← repeatWhile (Look.op "+") do
    let _ ← op "+"
    rules.bound false false
  return .traitObject false (first :: rest) false

/-- A type in parentheses as the first bound of a trait object, if it can be one. -/
def parenBound? : Ty → Option Bound
  | .path rooted segments => some (.trait true false none rooted segments)
  | .traitObject false [.trait _ relaxed binder rooted segments] false =>
    some (.trait true relaxed binder rooted segments)
  | .traitObject false [other] false => some other
  | _ => none

/-- What stands between parentheses where a type is needed. -/
inductive ParenContent where
  | type (type : Ty)
  /-- One type, which a plus sign after the parentheses may turn into a bound. -/
  | inner (inner : Ty)
  /-- A relaxed trait, which begins a trait object. -/
  | bound (bound : Bound)

/-- The inside of parentheses: nothing, a trait object, a relaxed trait, one type, or a tuple. -/
def parenContent (rules : Rules) : Parser ParenContent := do
  if ← atEnd then return .type (.tuple [] false)
  else if ← look Look.lifetime then return .type (.paren (← traitObject rules))
  else if ← look (Look.op "?") then
    match ← traitBound rules true false with
    | some found => return .bound found
    | none => return .type (.tuple [] false)
  else
    let first ← rules.type true
    if ← look (Look.op ",") then
      let _ ← op ","
      let rest ← terminated (rules.type true)
      return .type (.tuple (first :: rest.items) (rest.items.isEmpty || rest.trailing))
    else return .inner first

/-- A type that begins with a parenthesis. -/
def parenType (rules : Rules) (allowPlus : Bool) : Parser Ty := do
  let (content, _, _) ← within .paren (parenContent rules)
  match content with
  | .type found => return found
  | .bound found => furtherBounds rules found
  | .inner inner =>
    if allowPlus && (← look (Look.op "+")) then
      match parenBound? inner with
      | some first => furtherBounds rules first
      | none => return .paren inner
    else return .paren inner

/-- A parameter of a function pointer. The receiver forms are kept as their tokens. -/
def functionInput (rules : Rules) (attrs : List Attribute) (allowSelf : Bool) :
    Parser FunctionInput := do
  let more ← outerAttributes rules
  let before ← get
  let mutSelf := allowSelf && mutThenSelf before.tokens
  if mutSelf then
    let _ ← word "mut"
  let isSelf := allowSelf && Look.word "self" (← get).tokens
  let named ← look fun ts =>
    (Look.ident ts || Look.word "_" ts || isSelf) && Look.second (Look.op ":") ts &&
      !Look.second (Look.op "::") ts
  let name ← if named then
      let name ← anyIdent
      let _ ← op ":"
      pure (some name)
    else pure none
  if mutSelf && name.isNone then
    let _ ← word "self"
    return .mk (attrs ++ more) none (.verbatim (← since before))
  else
    let type ← rules.type true
    if mutSelf then return .mk (attrs ++ more) none (.verbatim (← since before))
    else return .mk (attrs ++ more) name type
where
  /-- Whether a mutable receiver comes next. -/
  mutThenSelf (tokens : Tokens) : Bool :=
    Look.word "mut" tokens && Look.second (Look.word "self") tokens

/-- The parameters of a function pointer and its variadic end. -/
structure FunctionInputs where
  /-- The parameters. -/
  inputs : Separated FunctionInput
  /-- The tokens of the variadic end. -/
  variadic : Option Tokens

/-- Whether the variadic end of a parameter list comes next. -/
def startsVariadic (tokens : Tokens) : Bool :=
  Look.op "..." tokens ||
    ((Look.ident tokens || Look.word "_" tokens) && Look.second (Look.op ":") tokens &&
      Look.third (Look.op "...") tokens)

/-- The inside of the parentheses of a function pointer. -/
def functionInputs (rules : Rules) : Parser FunctionInputs := do
  go true (← rounds)
where
  /-- The parameters, at most so many; the flag marks the first. -/
  go (first : Bool) : Nat → Parser FunctionInputs
    | 0 => pure ⟨⟨[], false⟩, none⟩
    | n + 1 => do
      if ← atEnd then return ⟨⟨[], false⟩, none⟩
      else
        let attrs ← outerAttributes rules
        if ← look startsVariadic then
          let name ← optionally (fun ts => !Look.op "..." ts)
            (do return [(← anyIdent).token] ++ (← op ":"))
          let dots ← op "..."
          let comma ← opOpt ","
          return ⟨⟨[], false⟩, some (attrsTokens attrs ++ name ++ dots ++ comma)⟩
        else
          let input ← functionInput rules attrs first
          if ← atEnd then return ⟨⟨[input], false⟩, none⟩
          else
            let _ ← op ","
            let rest ← go false n
            return ⟨.cons input rest.inputs, rest.variadic⟩

/-- The calling convention, if one is written. -/
def abi? : Parser (Option (Option Token)) := do
  if ← look (Look.word "extern") then
    let _ ← word "extern"
    if ← look lookText then return some ((← lit).tokens.head?)
    else return some none
  else return none

/-- A pointer to a function. -/
def functionType (rules : Rules) (quantified : Option Binder) : Parser Ty := do
  let own ← binder? rules
  let isUnsafe ← word? "unsafe"
  let abi ← abi?
  let _ ← word "fn"
  let (found, _, _) ← within .paren (functionInputs rules)
  let output ← output? rules false
  return .function (quantified.or own) (!isUnsafe.isEmpty) abi found.inputs.items
    found.inputs.trailing found.variadic output

/-- A type that begins with a path: a name, a macro call, or a trait object without its keyword. -/
def pathType (rules : Rules) (quantified : Option Binder) (allowPlus : Bool) : Parser Ty := do
  let found ← qpath rules false
  if found.self.isSome then return found.type
  else
    let called ← look fun ts => Look.op "!" ts && !Look.op "!=" ts
    match found.words?, called with
    | some words, true =>
      let _ ← op "!"
      let (delim, body, _, _) ← callBody
      return .call words delim body
    | _, _ =>
      let plus ← look (Look.op "+")
      if quantified.isSome || (allowPlus && plus) then
        let first := Bound.trait false false quantified found.rooted found.segments
        let rest ← if allowPlus then more (← rounds) else pure ⟨[], false⟩
        return .traitObject false (first :: rest.items) rest.trailing
      else return found.type
where
  /-- Bounds after plus signs; the last sign may stand alone. -/
  more : Nat → Parser (Separated Bound)
    | 0 => pure ⟨[], false⟩
    | n + 1 => do
      if ← look (Look.op "+") then
        let _ ← op "+"
        if ← look (startsBound false) then
          let next ← rules.bound false false
          let rest ← more n
          return ⟨next :: rest.items, rest.trailing⟩
        else return ⟨[], true⟩
      else return ⟨[], false⟩

/-- A trait object with its keyword. -/
def dynType (rules : Rules) (allowPlus : Bool) : Parser Ty := do
  let before ← get
  let pos ← here
  let _ ← word "dyn"
  let star ← op? "*"
  let found ← objectBounds rules pos allowPlus
  if star.isSome then return .verbatim (← since before)
  else return .traitObject true found.items found.trailing

/-- A slice or an array. -/
def bracketType (rules : Rules) : Parser Ty := do
  let (found, _, _) ← within .bracket do
    let element ← rules.type true
    if ← look (Look.op ";") then
      let _ ← op ";"
      return .array element (← rules.expr true)
    else return .slice element
  return found

/-- A raw pointer. -/
def pointerType (rules : Rules) : Parser Ty := do
  let _ ← op "*"
  let isMut ← choose
    [("`const`", Look.word "const", do
        let _ ← word "const"
        return false),
      ("`mut`", Look.word "mut", do
        let _ ← word "mut"
        return true)]
  return .pointer isMut (← rules.type false)

/-- A reference. -/
def referenceType (rules : Rules) : Parser Ty := do
  let _ ← op "&"
  let name ← lifetime?
  let isMut ← word? "mut"
  return .reference name (!isMut.isEmpty) (← rules.type false)

/-- Some type that satisfies bounds. -/
def implType (rules : Rules) (allowPlus : Bool) : Parser Ty := do
  let pos ← here
  let _ ← word "impl"
  let found ← bounds rules allowPlus true true
  if found.items.any Bound.isAnyTrait then return .implTrait found.items found.trailing
  else failAt pos (.violated "at least one trait must be specified")

/-- The path that a type is, if it is one. -/
def Ty.qpath? : Ty → Option QPath
  | .path rooted segments => some ⟨none, rooted, segments⟩
  | .projection self position rooted segments => some ⟨some (self, position), rooted, segments⟩
  | _ => none

/-- A type in an invisible group. A path goes on after it; the flag says whether it may take arguments
that begin with a bare angle bracket. -/
def groupType (rules : Rules) (allowArgs : Bool) : Parser Ty := do
  let (inner, _, _) ← invisible (rules.type true)
  let goesOn ← look fun ts => Look.op "::" ts && Look.third Look.anyWord ts
  let argued ← look fun ts =>
    (allowArgs && Look.op "<" ts) || (Look.op "::" ts && Look.third (Look.op "<") ts)
  match inner.qpath? with
  | some found =>
    if goesOn then
      let rest ← moreSegments rules false pathGoesOn
      return QPath.type { found with segments := found.segments ++ rest }
    else if argued && found.segments.getLast?.all fun s => s.args.isNone then
      let args ← angleArgs rules
      let rest ← moreSegments rules false pathGoesOn
      return QPath.type { found with segments := withCallArgs found.segments args ++ rest }
    else return .group inner
  | none =>
    if goesOn then
      let (rooted, segments) ← path rules false
      return .projection inner 0 rooted segments
    else return .group inner

/-- A type after its quantified lifetimes. -/
def typeAfter (rules : Rules) (allowPlus : Bool) (quantified : Option Binder) : Parser Ty := do
  if quantified.isSome && !(← look startsQuantified) then
    expected ["identifier", "`fn`", "`unsafe`", "`extern`", "`super`", "`self`", "`Self`",
      "`crate`"]
  else
    choose
      [("`for`", fun _ => false, pure .infer),
        ("parentheses", Look.group .paren, parenType rules allowPlus),
        ("`fn`", Look.word "fn", functionType rules quantified),
        ("`unsafe`", Look.word "unsafe", functionType rules quantified),
        ("`extern`", Look.word "extern", functionType rules quantified),
        ("identifier", Look.any [Look.ident, Look.words pathWords],
          pathType rules quantified allowPlus),
        ("`::`", Look.op "::", pathType rules quantified allowPlus),
        ("`<`", Look.op "<", pathType rules quantified allowPlus),
        ("`dyn`", Look.word "dyn", dynType rules allowPlus),
        ("square brackets", Look.group .bracket, bracketType rules),
        ("`*`", Look.op "*", pointerType rules),
        ("`&`", Look.op "&", referenceType rules),
        ("`!`", Look.op "!", do
          let _ ← op "!"
          return .never),
        ("`impl`", Look.word "impl", implType rules allowPlus),
        ("`_`", Look.word "_", do
          let _ ← word "_"
          return .infer),
        ("lifetime", Look.lifetime, traitObject rules)]
where
  /-- Whether a type that can be quantified over comes next. -/
  startsQuantified : Tokens → Bool :=
    Look.any [Look.ident, Look.words ["fn", "unsafe", "extern", "super", "self", "Self", "crate"]]

/-- A type. -/
def type (rules : Rules) (allowPlus : Bool) : Parser Ty := do
  if ← look (Look.group .invisible) then groupType rules true
  else typeAfter rules allowPlus (← binder? rules)

/-- The type of a cast, after which an angle bracket is a comparison. -/
def castType (rules : Rules) : Parser Ty := do
  if ← look (Look.group .invisible) then groupType rules false else rules.type false

end Fieldwise.Grammar
