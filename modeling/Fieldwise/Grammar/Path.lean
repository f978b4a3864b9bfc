import Fieldwise.Grammar.Attribute

/-!
# Paths and bounds

A path is a sequence of segments, each a name with arguments. In an expression the angle bracket of
arguments needs a path separator before it. A path may begin with a type between angle brackets, perhaps
seen as a trait. Bounds are lifetimes and traits; only the path of a trait takes arguments in
parentheses.
-/

namespace Fieldwise.Grammar

open Fieldwise.Grammar.Parser

/-! ## Lifetimes -/

/-- The lifetimes that a lifetime outlives. -/
def lifetimeBounds (stop : Tokens → Bool) : Parser (Separated Lifetime) :=
  separatedWhile stop "+" lifetime

/-- A lifetime parameter. -/
def lifetimeParam (rules : Rules) : Parser LifetimeParam := do
  let attrs ← outerAttributes rules
  let name ← lifetime
  if ← look (Look.op ":") then
    let _ ← op ":"
    let stop := Look.any [List.isEmpty, Look.op ",", Look.op ">"]
    return ⟨attrs, name, ← lifetimeBounds stop⟩
  else return ⟨attrs, name, ⟨[], false⟩⟩

/-- Quantified lifetimes. -/
def binder (rules : Rules) : Parser Binder := do
  let _ ← word "for"
  let _ ← op "<"
  let params ← separatedUntil (Look.op ">") "," (lifetimeParam rules)
  let _ ← op ">"
  return params

/-- Quantified lifetimes if they come next. -/
def binder? (rules : Rules) : Parser (Option Binder) := do
  if ← look (Look.word "for") then some <$> binder rules else return none

/-! ## Arguments -/

/-- A result type, if an arrow comes next. -/
def output? (rules : Rules) (allowPlus : Bool) : Parser (Option Ty) := do
  if ← look (Look.op "->") then
    let _ ← op "->"
    some <$> rules.type allowPlus
  else return none

/-- Argument types in parentheses, and a result type. -/
def callArgs (rules : Rules) : Parser Args := do
  let (inputs, _, _) ← within .paren (terminated (rules.type true))
  let output ← output? rules false
  return .call inputs.items inputs.trailing output

/-- A constant as an argument: a literal, a name or a block. -/
def constArgument (rules : Rules) : Parser Expr := do
  if ← look lookLit then return ⟨.other, (← lit).tokens⟩
  else if ← look Look.ident then return ⟨.other, [(← ident).token]⟩
  else if ← look (Look.group .brace) then return ⟨.block, ← blockWithAttributes rules⟩
  else expected []

/-- Whether a constant that is no name comes next. -/
def startsConst : Tokens → Bool := Look.any [lookLit, Look.group .brace]

/-- An argument between angle brackets. A name alone may be followed by its value or its bounds. -/
def genericArg (rules : Rules) : Parser GenericArg := do
  if ← look fun ts => Look.lifetime ts && !Look.second (Look.op "+") ts then
    return .lifetime (← lifetime)
  else if ← look startsConst then return .const (← constArgument rules)
  else
    let type ← rules.type true
    match soleSegment? type with
    | none => return .type type
    | some (name, args) =>
      if ← look (Look.op "=") then
        let _ ← op "="
        if ← look startsConst then return .assocConst name args (← constArgument rules)
        else return .assocType name args (← rules.type true)
      else if ← look (Look.op ":") then
        let _ ← op ":"
        let bounds ← separatedWhile (Look.any [Look.op ",", Look.op ">"]) "+"
          (rules.bound false true)
        return .constraint name args bounds.items bounds.trailing
      else return .type type
where
  /-- The name and the arguments of a type that is one segment. -/
  soleSegment? : Ty → Option (Ident × Args)
    | .path false [.mk name args] =>
      match args with
      | .call _ _ _ => none
      | _ => some (name, args)
    | _ => none

/-- Arguments between angle brackets, with or without a separator before them. -/
def angleArgs (rules : Rules) : Parser Args := do
  let turbofish ← op? "::"
  let _ ← op "<"
  let items ← separatedUntil (Look.op ">") "," (genericArg rules)
  let _ ← op ">"
  return .angle turbofish.isSome items.items items.trailing

/-! ## Paths -/

/-- Whether arguments in angle brackets follow the name of a segment. -/
def startsArgs (exprStyle : Bool) (tokens : Tokens) : Bool :=
  (!exprStyle && Look.op "<" tokens && !Look.op "<=" tokens) ||
    (Look.op "::" tokens && Look.third (Look.op "<") tokens)

/-- A segment of a path. The words for modules take no arguments. -/
def segment (rules : Rules) (exprStyle : Bool) : Parser Segment := do
  if ← look (Look.words ["super", "self", "crate", "try"]) then return .mk (← anyIdent) .none
  else
    let name ← if ← look (Look.word "Self") then anyIdent else ident
    if ← look (startsArgs exprStyle) then return .mk name (← angleArgs rules)
    else return .mk name .none

/-- Further segments while a separator follows. -/
def moreSegments (rules : Rules) (exprStyle : Bool) (goesOn : Tokens → Bool) :
    Parser (List Segment) :=
  repeatWhile goesOn do
    let _ ← op "::"
    segment rules exprStyle

/-- Whether a path goes on; a separator before parentheses does not belong to it. -/
def pathGoesOn (tokens : Tokens) : Bool :=
  Look.op "::" tokens && !Look.third (Look.group .paren) tokens

/-- A path: whether it is rooted, and its segments. -/
def path (rules : Rules) (exprStyle : Bool) : Parser (Bool × List Segment) := do
  let root ← op? "::"
  let first ← segment rules exprStyle
  let rest ← moreSegments rules exprStyle pathGoesOn
  return (root.isSome, first :: rest)

/-- A path that may begin with a type between angle brackets. -/
structure QPath where
  /-- The type, and how many segments name the trait it is seen as. -/
  self : Option (Ty × Nat)
  /-- Whether the path after it is rooted. -/
  rooted : Bool
  /-- All segments. -/
  segments : List Segment

/-- The type that a path names. -/
def QPath.type (p : QPath) : Ty :=
  match p.self with
  | none => .path p.rooted p.segments
  | some (type, position) => .projection type position p.rooted p.segments

/-- The tokens of a path. -/
def QPath.tokens (p : QPath) : Tokens := p.type.tokens

/-- The path as words alone, if it has neither a type nor arguments. -/
def QPath.words? (p : QPath) : Option ModPath :=
  if p.self.isNone && p.segments.all fun s => s.args.isNone then
    some ⟨p.rooted, p.segments.map Segment.ident⟩
  else none

/-- A path that may begin with a type between angle brackets. -/
def qpath (rules : Rules) (exprStyle : Bool) : Parser QPath := do
  if ← look (Look.op "<") then
    let _ ← op "<"
    let self ← rules.type true
    let asTrait ← if ← look (Look.word "as") then
        let _ ← word "as"
        some <$> path rules false
      else pure none
    let _ ← op ">"
    let _ ← op "::"
    let first ← segment rules exprStyle
    let rest ← moreSegments rules exprStyle (Look.op "::")
    match asTrait with
    | some (rooted, front) =>
      return ⟨some (self, front.length), rooted, front ++ first :: rest⟩
    | none => return ⟨some (self, 0), true, first :: rest⟩
  else
    let (rooted, segments) ← path rules exprStyle
    return ⟨none, rooted, segments⟩

/-! ## Bounds -/

/-- The parameters that a hidden type may mention. -/
def captured : Parser Tokens := do
  let keyword ← word "use"
  let left ← op "<"
  let params ← go (← rounds)
  let right ← op ">"
  return keyword ++ left ++ separatedTokens "," params ++ right
where
  /-- The parameters, at most so many. -/
  go : Nat → Parser (Separated Tokens)
    | 0 => pure ⟨[], false⟩
    | n + 1 => do
      if ← look (Look.op ">") then pure ⟨[], false⟩
      else
        let param ← choose
          [("lifetime", Look.lifetime, Lifetime.tokens <$> lifetime),
            ("identifier", Look.any [Look.ident, Look.word "Self"],
              do return [(← anyIdent).token]),
            ("`>`", Look.op ">", pure [])]
        if ← look (Look.op ",") then
          let _ ← op ","
          return .cons param (← go n)
        else if ← look (Look.op ">") then pure ⟨[param], false⟩
        else expected ["`,`", "`>`"]

/-- The arguments in parentheses of the last segment, put in place. -/
def withCallArgs : List Segment → Args → List Segment
  | [], _ => []
  | [.mk name _], args => [.mk name args]
  | first :: rest, args => first :: withCallArgs rest args

/-- Whether the last segment has no arguments. -/
def lastIsPlain (segments : List Segment) : Bool :=
  segments.getLast?.all fun s => hasNone s.args
where
  /-- No arguments, or an empty list of them. -/
  hasNone : Args → Bool
    | .none => true
    | .angle _ [] _ => true
    | _ => false

/-- A trait as a bound, inside its parentheses if there are any; nothing for a constant trait. -/
def traitBound (rules : Rules) (inParens allowConst : Bool) : Parser (Option Bound) := do
  let early ← binder? rules
  let isConst ← constMark allowConst
  let pos ← here
  let relaxed ← op? "?"
  let quantified ← if early.isNone && relaxed.isSome then binder? rules else pure early
  let (rooted, segments) ← path rules false
  let segments ← if lastIsPlain segments && (← look startsCall) then
      let _ ← op? "::"
      pure (withCallArgs segments (← callArgs rules))
    else pure segments
  if quantified.isSome && relaxed.isSome then
    failAt pos (.violated "`for<...>` binder not allowed with `?` trait polarity modifier")
  else if isConst then return none
  else return some (.trait inParens relaxed.isSome quantified rooted segments)
where
  /-- Whether arguments in parentheses come next. -/
  startsCall (tokens : Tokens) : Bool :=
    Look.group .paren tokens ||
      (Look.op "::" tokens && Look.third (Look.group .paren) tokens)
  /-- The mark of a constant trait, where it is allowed. -/
  constMark (allowConst : Bool) : Parser Bool := do
    let pos ← here
    if ← look (Look.group .bracket) then
      let _ ← within .bracket (word "const")
      if allowConst then return true
      else failAt pos (.violated "`[const]` is not allowed here")
    else if ← look (Look.word "const") then
      let _ ← word "const"
      if allowConst then return true
      else failAt pos (.violated "`const` is not allowed here")
    else return false

/-- A bound. -/
def bound (rules : Rules) (allowCapture allowConst : Bool) : Parser Bound := do
  if ← look Look.lifetime then return .lifetime (← lifetime)
  else if ← look (Look.word "use") then
    let pos ← here
    let tokens ← captured
    if allowCapture then return .capture tokens
    else failAt pos (.violated "`use<...>` precise capturing syntax is not allowed here")
  else
    let before ← get
    let found ← if ← look (Look.group .paren) then
        Prod.fst <$> within .paren (traitBound rules true allowConst)
      else traitBound rules false allowConst
    match found with
    | some found => return found
    | none => return .verbatim (← since before)

/-- Whether a bound can follow a plus sign. -/
def startsBound (allowConst : Bool) (tokens : Tokens) : Bool :=
  Look.any [Look.anyWord, Look.op "::", Look.op "?", Look.lifetime, Look.group .paren] tokens ||
    (allowConst && Look.group .bracket tokens)

/-- One bound or several joined by plus signs. -/
def bounds (rules : Rules) (allowPlus allowCapture allowConst : Bool) :
    Parser (Separated Bound) := do
  go (← rounds)
where
  /-- The bounds, at most so many. -/
  go : Nat → Parser (Separated Bound)
    | 0 => pure ⟨[], false⟩
    | n + 1 => do
      let first ← bound rules allowCapture allowConst
      if allowPlus && (← look (Look.op "+")) then
        let _ ← op "+"
        if ← look (startsBound allowConst) then return .cons first (← go n)
        else pure ⟨[first], true⟩
      else pure ⟨[first], false⟩

end Fieldwise.Grammar
