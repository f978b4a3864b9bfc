import Fieldwise.Grammar.Printer
import Fieldwise.Token.Literal

/-!
# Names, lifetimes and literals

The parsers for the smallest parts of the grammar.
-/

namespace Fieldwise.Grammar.Parser

/-- Take a name, which must not be reserved. -/
def ident : Parser Ident := fun s =>
  match bare s.tokens with
  | .ident name pos :: rest =>
    if isKeyword name then fail (.keywordName name) s
    else .ok (⟨name, pos⟩, { s with tokens := rest })
  | _ => fail (.expected ["identifier"]) s

/-- Take any word. -/
def anyIdent : Parser Ident := fun s =>
  match bare s.tokens with
  | .ident name pos :: rest => .ok (⟨name, pos⟩, { s with tokens := rest })
  | _ => fail (.expected ["ident"]) s

/-- Take a name or the placeholder. -/
def identOrUnderscore : Parser Ident := do
  if ← look (Look.word "_") then anyIdent else ident

/-- Take a lifetime. -/
def lifetime : Parser Lifetime := fun s =>
  match bare s.tokens with
  | .punct '\'' .joint pos :: .ident name at_ :: rest =>
    .ok (⟨pos, ⟨name, at_⟩⟩, { s with tokens := rest })
  | _ => fail (.expected ["lifetime"]) s

/-- Take a lifetime if one comes next. -/
def lifetime? : Parser (Option Lifetime) := do
  if ← look Look.lifetime then some <$> lifetime else pure none

/-- The words that can begin a path beside names. -/
def pathWords : List String := ["super", "self", "crate", "Self"]

/-- Whether a word of a path comes next. -/
def startsSegment : Tokens → Bool := Look.any [Look.ident, Look.words pathWords]

/-- Take a path of words alone. -/
def modPath : Parser ModPath := do
  let root ← op? "::"
  if ← look startsSegment then return ⟨root.isSome, ← go (← rounds)⟩
  else return ⟨root.isSome, [← ident]⟩
where
  /-- The words, at most so many. -/
  go : Nat → Parser (List Ident)
    | 0 => pure []
    | n + 1 => do
      let name ← anyIdent
      if ← look (Look.op "::") then
        let _ ← op "::"
        if ← look startsSegment then return name :: (← go n)
        else violated "expected path segment after `::`"
      else pure [name]

/-- A literal as the grammar reads it: a number may have a minus sign of its own. -/
structure Lit where
  /-- The text, with the minus sign. -/
  text : String
  /-- What the literal stands for; nothing for the two truth values. -/
  kind : Option Literal.Kind
  /-- Where it stands. -/
  pos : Pos
  /-- Its tokens. -/
  tokens : Tokens

/-- The kind of a number with a minus sign in front, if it is one. -/
def negative? (text : String) : Option Literal.Kind :=
  match Literal.numberKind ('-' :: text.toList) with
  | .unknown => none
  | kind => some kind

/-- The literal at the front of some tokens, and what follows it. -/
def lit? (tokens : Tokens) : Option (Lit × Tokens) :=
  match bare tokens with
  | .literal text pos :: rest =>
    some (⟨text, some (Literal.kind text), pos, [.literal text pos]⟩, rest)
  | .ident name pos :: rest =>
    if name == "true" || name == "false" then some (⟨name, none, pos, [.ident name pos]⟩, rest)
    else none
  | .punct '-' _ pos :: rest =>
    match bare rest with
    | .literal text at_ :: rest =>
      (negative? text).map fun kind =>
        (⟨"-" ++ text, some kind, pos, [.punct '-' .alone pos, .literal text at_]⟩, rest)
    | _ => none
  | _ => none

/-- Take a literal. -/
def lit : Parser Lit := fun s =>
  match lit? s.tokens with
  | some (found, rest) => .ok (found, { s with tokens := rest })
  | none => fail (.expected ["literal"]) s

/-- Whether a literal comes next. -/
def lookLit (tokens : Tokens) : Bool := (lit? tokens).isSome

/-- Whether a literal of this kind comes next. -/
def lookLitKind (test : Literal.Kind → Bool) (tokens : Tokens) : Bool :=
  (lit? tokens).any fun found => found.1.kind.any test

/-- Whether a text literal comes next. -/
def lookText : Tokens → Bool :=
  lookLitKind fun | .text _ => true | _ => false

/-- Take the delimited tokens of a macro call. -/
def callBody : Parser (Delim × Tokens × Pos × Pos) := fun s =>
  match s.tokens with
  | .group .invisible _ _ _ :: _ => fail (.expected ["delimiter"]) s
  | .group delim body opening closing :: rest =>
    .ok ((delim, body, opening, closing), { s with tokens := rest })
  | _ => fail (.expected ["delimiter"]) s

end Fieldwise.Grammar.Parser
