import Fieldwise.Grammar.Parse
import Fieldwise.Token.Printer

/-!
# Values

Initial values and default values are written in a small language of literals, lists, maps and casts.
Everything else is kept as the tokens it is made of. This module has the values, how they are read, and
how they are written back as tokens.
-/

namespace Fieldwise

open Fieldwise.Grammar

/-- A value in an annotation. Literals keep their text. -/
inductive Value where
  | bool (value : Bool)
  /-- A text literal, with its place: as a key it is what a message points at. -/
  | text (literal : String) (pos : Pos)
  /-- A character literal. -/
  | char (literal : String)
  /-- A whole number, with a minus sign of its own or not. -/
  | whole (negative : Bool) (literal : String)
  /-- A fraction, with a minus sign of its own or not. -/
  | fraction (negative : Bool) (literal : String)
  /-- The absent value. -/
  | absent
  | array (elements : List Value)
  | map (entries : List (Value × Value))
  /-- A cast; a conditional one may fail. -/
  | cast (value : Value) (type : Ty) (conditional : Bool)
  /-- Any other expression. -/
  | other (tokens : Tokens)

namespace Value

instance : Inhabited Value := ⟨absent⟩

/-- Whether a value is absent. -/
def isAbsent : Value → Bool
  | absent => true
  | _ => false

/-! ## Writing -/

/-- A literal at the call site. A minus sign that belongs to the text is a token of its own. -/
def literalTokens (literal : String) : Tokens :=
  match literal.toList with
  | '-' :: rest => sign "-" ++ [.literal (String.ofList rest) Pos.callSite]
  | _ => [.literal literal Pos.callSite]

/-- The sign of a number. -/
def signTokens (negative : Bool) : Tokens := if negative then sign "-" else []

mutual

/-- The tokens of a value. -/
def tokens : Value → Tokens
  | bool value => term (if value then "true" else "false")
  | text literal pos => [.literal literal pos]
  | char literal => [.literal literal Pos.callSite]
  | whole negative literal => signTokens negative ++ literalTokens literal
  | fraction negative literal => signTokens negative ++ literalTokens literal
  | absent => term "None"
  | array elements => wrap .bracket (joined (sign ",") (tokensAll elements) false)
  | map entries => wrap .brace (joined (sign ",") (entryTokens entries) false)
  | cast value type conditional =>
    value.tokens ++ term "as" ++ (if conditional then sign "?" else []) ++ type.tokens
  | other tokens => tokens

/-- The tokens of each of several values. -/
def tokensAll : List Value → List Tokens
  | [] => []
  | value :: rest => value.tokens :: tokensAll rest

/-- The tokens of each of several entries of a map. -/
def entryTokens : List (Value × Value) → List Tokens
  | [] => []
  | (key, value) :: rest => (key.tokens ++ sign ":" ++ value.tokens) :: entryTokens rest

end

/-- A value as source text. -/
def source (value : Value) : String := Tokens.text value.tokens

/-! ## Reading -/

open Fieldwise.Grammar.Parser

/-- The value of a literal that the grammar has read. -/
def ofLit (negative : Bool) (lit : Lit) : Value :=
  match lit.kind with
  | none => bool (lit.text == "true")
  | some (.text _) => text lit.text lit.pos
  | some (.char _) => char lit.text
  | some (.whole _) => whole negative lit.text
  | some (.fraction _) => fraction negative lit.text
  | some _ => other lit.tokens

/-- Whether a number comes next. -/
def startsNumber : Tokens → Bool :=
  lookLitKind fun | .whole _ => true | .fraction _ => true | _ => false

/-- Tokens up to a comma, a colon or a cast. A path separator is no colon. -/
def opaqueTokens : Parser Tokens := do
  go (← rounds)
where
  /-- The tokens, at most so many steps. -/
  go : Nat → Parser Tokens
    | 0 => pure []
    | n + 1 => do
      if ← look (Look.any [List.isEmpty, Look.op ",", Look.word "as"]) then return []
      else if ← look (Look.op "::") then
        let separator ← op "::"
        return separator ++ (← go n)
      else if ← look (Look.op ":") then return []
      else
        let token ← tree
        return token :: (← go n)

/-- An expression that is no literal, list or map. -/
def otherValue : Parser Value := do
  let found ← opaqueTokens
  if found.isEmpty then violated "expected a literal or an expression" else return other found

/-- The inside of the braces of a map. -/
def entries (value : Parser Value) : Parser (List (Value × Value)) := do
  let found ← terminated do
    let key ← value
    let _ ← op ":"
    return (key, ← value)
  return found.items

/-- A value without casts; brackets and braces that hold no values are other expressions. -/
def operand (value : Parser Value) : Parser Value := do
  if ← look (Look.group .bracket) then
    match ← ahead (within .bracket (terminated value)) with
    | some ((found, _, _), after) =>
      resume after
      return array found.items
    | none => otherValue
  else if ← look (Look.group .brace) then
    match ← ahead (within .brace (entries value)) with
    | some ((found, _, _), after) =>
      resume after
      return map found
    | none => otherValue
  else if ← look fun ts => Look.op "-" ts && Look.second startsNumber ts then
    let _ ← op "-"
    return ofLit true (← lit)
  else if ← look lookLit then return ofLit false (← lit)
  else if ← look isNone then
    let _ ← anyIdent
    return absent
  else otherValue
where
  /-- Whether the word for the absent value comes next, and no path or call. -/
  isNone (tokens : Tokens) : Bool :=
    Look.word "None" tokens && !Look.second (Look.op "::") tokens &&
      !Look.second (Look.group .paren) tokens

/-- The casts that follow a value, applied from left to right. -/
def casts (rules : Rules) (first : Value) : Parser Value := do
  go first (← rounds)
where
  /-- The casts, at most so many. -/
  go (value : Value) : Nat → Parser Value
    | 0 => pure value
    | n + 1 => do
      if ← look (Look.word "as") then
        let _ ← word "as"
        let conditional ← op? "?"
        let type ← rules.type true
        go (cast value type conditional.isSome) n
      else return value

/-- A value whose lists and maps are nested so deep. The values inside of them are read by the rules for the
tokens that are left there. -/
def parserTo : Nat → Rules → Parser Value
  | 0, _ => failHere .tooDeep
  | depth + 1, rules => do
    casts rules (← operand fun s => parserTo depth (.forTokens s.tokens) s)

/-- A value. -/
def parser (rules : Rules) : Parser Value := do
  parserTo (← rounds) rules

/-- Parse tokens as a value. -/
def parse (tokens : Tokens) : Except SyntaxError Value := parseWith parser tokens

end Value

end Fieldwise
