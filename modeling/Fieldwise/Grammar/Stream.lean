import Fieldwise.Grammar.Look

/-!
# Parsers over token streams

A parser takes what it needs from the front of a stream and returns the rest. The end of a stream is
reported at the delimiter that closes it. Tokens that a parser leaves over inside a group do not stop
it at once: the first such place is kept, and the whole parse fails with it in the end.
-/

namespace Fieldwise.Grammar

/-- Why a parse fails. -/
inductive Cause where
  /-- None of these alternatives was found. -/
  | expected (alternatives : List String)
  /-- The same, at the end of the input. -/
  | endBefore (cause : Cause)
  /-- A reserved word stands where a name is needed. -/
  | keywordName (word : String)
  /-- Tokens are left over inside a group, or at the top for the invisible delimiter. -/
  | leftover (delim : Delim)
  /-- The text is no sequence of tokens. -/
  | unreadable
  /-- A rule beyond the grammar is broken. -/
  | violated (rule : String)
  /-- The tokens are nested deeper than the parser was prepared for. -/
  | tooDeep
  deriving DecidableEq, Inhabited

/-- The wording of a cause. -/
def Cause.message : Cause → String
  | .expected [] => "unexpected token"
  | .expected [one] => "expected " ++ one
  | .expected [one, two] => "expected " ++ one ++ " or " ++ two
  | .expected all => "expected one of: " ++ String.intercalate ", " all
  | .endBefore (.expected []) => "unexpected end of input"
  | .endBefore cause => "unexpected end of input, " ++ cause.message
  | .keywordName word => "expected identifier, found keyword `" ++ word ++ "`"
  | .leftover .paren => "unexpected token, expected `)`"
  | .leftover .bracket => "unexpected token, expected `]`"
  | .leftover .brace => "unexpected token, expected `\x7d`"
  | .leftover .invisible => "unexpected token"
  | .unreadable => "cannot parse string into token stream"
  | .violated rule => rule
  | .tooDeep => "nesting is too deep"

/-- A failed parse: where, and why. -/
structure SyntaxError where
  /-- Where the parse failed. -/
  pos : Pos
  /-- Why it failed. -/
  cause : Cause
  deriving DecidableEq, Inhabited

/-- The wording of a failed parse. -/
def SyntaxError.message (error : SyntaxError) : String := error.cause.message

/-- The tokens still to be read. -/
structure Stream where
  /-- What is left. -/
  tokens : Tokens
  /-- Where the end of the input is reported. -/
  stop : Pos
  /-- What encloses the tokens; the invisible delimiter at the top. -/
  delim : Delim
  /-- The first place inside an earlier group at which tokens were left over. -/
  leftover : Option (Pos × Delim)

/-- A parser returns a value and the rest of the stream, or fails. -/
abbrev Parser := StateT Stream (Except SyntaxError)

namespace Stream

/-- The place of the next token, or of the end. -/
def here (s : Stream) : Pos :=
  match s.tokens with
  | [] => s.stop
  | token :: _ => token.pos

/-- Whether nothing is left. -/
def atEnd (s : Stream) : Bool := s.tokens.isEmpty

end Stream

mutual

/-- The first visible token of a tree, with the delimiter around it. -/
def visibleIn (delim : Delim) : Token → Option (Pos × Delim)
  | .group .invisible body _ _ => visibleAmong .invisible body
  | token => some (token.pos, delim)

/-- The first visible token of a list, with the delimiter around it. -/
def visibleAmong (delim : Delim) : Tokens → Option (Pos × Delim)
  | [] => none
  | token :: rest =>
    match visibleIn delim token with
    | some found => some found
    | none => visibleAmong delim rest

end

/-- The first token that a finished parser has left over. -/
def Stream.remainder (s : Stream) : Option (Pos × Delim) := visibleAmong s.delim s.tokens

/-- Items with a separator between them and perhaps one after the last. -/
structure Separated (α : Type) where
  /-- The items in order. -/
  items : List α
  /-- Whether a separator follows the last item. -/
  trailing : Bool
  deriving Inhabited

/-- Put an item and the separator after it in front. -/
def Separated.cons {α : Type} (value : α) (rest : Separated α) : Separated α :=
  ⟨value :: rest.items, rest.items.isEmpty || rest.trailing⟩

namespace Parser

/-- Fail at a place. -/
def failAt {α : Type} (pos : Pos) (cause : Cause) : Parser α := throw ⟨pos, cause⟩

/-- Fail at the next token, without a word about the end of the input. -/
def failHere {α : Type} (cause : Cause) : Parser α := fun s => .error ⟨s.here, cause⟩

/-- Fail at the next token, or because the input has ended. -/
def fail {α : Type} (cause : Cause) : Parser α := fun s =>
  .error ⟨s.here, if s.atEnd then .endBefore cause else cause⟩

/-- Fail because none of the alternatives comes next. -/
def expected {α : Type} (alternatives : List String) : Parser α := fail (.expected alternatives)

/-- Fail because a rule is broken at the next token. -/
def violated {α : Type} (rule : String) : Parser α := fail (.violated rule)

/-- Test the next tokens. -/
def look (test : Tokens → Bool) : Parser Bool := return test (← get).tokens

/-- Whether the stream has ended. -/
def atEnd : Parser Bool := return (← get).atEnd

/-- The place of the next token. -/
def here : Parser Pos := return (← get).here

/-- Text between backquotes, as messages name words and operators. -/
def shown (text : String) : String := "`" ++ text ++ "`"

/-- Take an operator. -/
def op (text : String) : Parser Tokens := fun s =>
  match dropOp text.toList s.tokens with
  | some rest => .ok (Token.operator s.here text.toList, { s with tokens := rest })
  | none => .error ⟨s.here, .expected [shown text]⟩

/-- Take an operator if it comes next. -/
def op? (text : String) : Parser (Option Tokens) := do
  if ← look (Look.op text) then some <$> op text else pure none

/-- Take this word. -/
def word (name : String) : Parser Tokens := fun s =>
  match bare s.tokens with
  | .ident found pos :: rest =>
    if found == name then .ok ([.ident found pos], { s with tokens := rest })
    else fail (.expected [shown name]) s
  | _ => fail (.expected [shown name]) s

/-- Take this word if it comes next; no tokens otherwise. -/
def word? (name : String) : Parser Tokens := do
  if ← look (Look.word name) then word name else pure []

/-- Take one token tree, whatever it is. -/
def tree : Parser Token := fun s =>
  match s.tokens with
  | token :: rest => .ok (token, { s with tokens := rest })
  | [] => fail (.expected ["token tree"]) s

/-- Parse the inside of a group, and say where the group opens and closes. -/
def within {α : Type} (delim : Delim) (inside : Parser α) : Parser (α × Pos × Pos) := fun s =>
  match bare s.tokens with
  | .group found body opening closing :: rest =>
    if found = delim then
      match inside ⟨body, closing, delim, none⟩ with
      | .error error => .error error
      | .ok (value, inner) =>
        let left := (s.leftover.or inner.leftover).or inner.remainder
        .ok ((value, opening, closing), { s with tokens := rest, leftover := left })
    else fail (.expected [name delim]) s
  | _ => fail (.expected [name delim]) s
where
  /-- How a message names a delimiter. -/
  name : Delim → String
    | .paren => "parentheses"
    | .bracket => "square brackets"
    | .brace => "curly braces"
    | .invisible => "invisible group"

/-- Parse the inside of a group to tokens, and keep the group around them. -/
def enclosed (delim : Delim) (inside : Parser Tokens) : Parser Tokens := do
  let (body, opening, closing) ← within delim inside
  return [.group delim body opening closing]

/-- Parse an invisible group as a unit. -/
def invisible {α : Type} (inside : Parser α) : Parser (α × Pos × Pos) := fun s =>
  match s.tokens with
  | .group .invisible body opening closing :: rest =>
    match inside ⟨body, closing, .invisible, none⟩ with
    | .error error => .error error
    | .ok (value, inner) =>
      let left := (s.leftover.or inner.leftover).or inner.remainder
      .ok ((value, opening, closing), { s with tokens := rest, leftover := left })
  | _ => fail (.expected ["invisible group"]) s

/-- Try a parser without taking anything: its value and the stream after it, if it succeeds. -/
def ahead {α : Type} (parser : Parser α) : Parser (Option (α × Stream)) := fun s =>
  match parser { s with leftover := none } with
  | .ok found => .ok (some found, s)
  | .error error => if error.cause = .tooDeep then .error error else .ok (none, s)

/-- Run a parser for its value or its failure, without taking anything. -/
def peekRun {α : Type} (parser : Parser α) : Parser α := fun s =>
  match parser { s with leftover := none } with
  | .ok (value, _) => .ok (value, s)
  | .error error => .error error

/-- Go on after what was read ahead. -/
def resume (after : Stream) : Parser Unit :=
  modify fun s => { s with tokens := after.tokens, leftover := s.leftover.or after.leftover }

/-- The tokens between an earlier point and the present one, as they were written. -/
def since (before : Stream) : Parser Tokens := fun s =>
  .ok (before.tokens.take (before.tokens.length - s.tokens.length), s)

/-- An upper bound on how often a list can repeat: every round takes a token. -/
def rounds : Parser Nat := return Token.sizeAll (← get).tokens + 1

/-- Repeat while a test holds. -/
def repeatWhile {α : Type} (test : Tokens → Bool) (item : Parser α) : Parser (List α) := do
  go (← rounds)
where
  /-- The same, at most so many times. -/
  go : Nat → Parser (List α)
    | 0 => pure []
    | n + 1 => do
      if ← look test then
        let value ← item
        return value :: (← go n)
      else pure []

/-- Items up to a stop; between two of them there has to be a separator. -/
def separatedUntil {α : Type} (stop : Tokens → Bool) (separator : String) (item : Parser α) :
    Parser (Separated α) := do
  go (← rounds)
where
  /-- The same, at most so many times. -/
  go : Nat → Parser (Separated α)
    | 0 => pure ⟨[], false⟩
    | n + 1 => do
      if ← look stop then pure ⟨[], false⟩
      else
        let value ← item
        if ← look stop then pure ⟨[value], false⟩
        else
          let _ ← op separator
          return .cons value (← go n)

/-- Items up to a stop, or up to the first one that no separator follows. -/
def separatedWhile {α : Type} (stop : Tokens → Bool) (separator : String) (item : Parser α) :
    Parser (Separated α) := do
  go (← rounds)
where
  /-- The same, at most so many times. -/
  go : Nat → Parser (Separated α)
    | 0 => pure ⟨[], false⟩
    | n + 1 => do
      if ← look stop then pure ⟨[], false⟩
      else
        let value ← item
        if ← look (Look.op separator) then
          let _ ← op separator
          return .cons value (← go n)
        else pure ⟨[value], false⟩

/-- Items up to the end of the stream, with commas between them. -/
def terminated {α : Type} (item : Parser α) : Parser (Separated α) :=
  separatedUntil List.isEmpty "," item

end Parser

/-- Run a parser on all of some tokens, whose end is reported at a place. A token left over inside a
group is reported before one left over at the top. -/
def parseAll {α : Type} (parser : Parser α) (tokens : Tokens) (stop : Pos) :
    Except SyntaxError α :=
  match parser ⟨tokens, stop, .invisible, none⟩ with
  | .error error => .error error
  | .ok (value, after) =>
    match after.leftover.or after.remainder with
    | some (pos, delim) => .error ⟨pos, .leftover delim⟩
    | none => .ok value

end Fieldwise.Grammar
