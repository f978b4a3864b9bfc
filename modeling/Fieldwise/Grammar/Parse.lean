import Fieldwise.Grammar.Item
import Fieldwise.Token.Lexer

/-!
# Parsing types, expressions, items and files

The rules of the grammar are tied together for a nesting depth. The tokens to be parsed give a depth that
is never reached: every rule that comes back to itself has taken a token before.
-/

namespace Fieldwise.Grammar

open Fieldwise.Grammar.Parser

/-- The rules for which nothing may be nested any more. -/
def Rules.none : Rules where
  type _ := failHere .tooDeep
  bound _ _ := failHere .tooDeep
  expr _ := failHere .tooDeep
  unary _ := failHere .tooDeep
  climb _ _ _ := failHere .tooDeep
  early := failHere .tooDeep
  pattern := failHere .tooDeep
  statements := failHere .tooDeep
  item := failHere .tooDeep
  useTree _ := failHere .tooDeep

/-- The rules one step of nesting above others. -/
def Rules.above (rules : Rules) : Rules where
  type := Grammar.type rules
  bound := Grammar.bound rules
  expr := Grammar.expr rules
  unary := Grammar.unary rules
  climb := Grammar.climb rules
  early := Grammar.early rules
  pattern := Grammar.pattern rules
  statements := Grammar.statements rules
  item := Grammar.item rules
  useTree := Grammar.useTree rules

/-- The rules for a nesting depth. -/
def Rules.level : Nat → Rules
  | 0 => .none
  | depth + 1 => (Rules.level depth).above

/-- A nesting depth that parsing these tokens cannot reach: four rules at most follow each other
without taking a token. -/
def depthFor (tokens : Tokens) : Nat := 4 * Token.sizeAll tokens + 8

/-- The rules for some tokens. -/
def Rules.forTokens (tokens : Tokens) : Rules := .level (depthFor tokens)

/-- Parse all of some tokens with a rule; the end is reported at the call site. -/
def parseWith {α : Type} (parser : Rules → Parser α) (tokens : Tokens) : Except SyntaxError α :=
  parseAll (parser (.forTokens tokens)) tokens Pos.callSite

/-- Parse tokens as a type. -/
def parseType (tokens : Tokens) : Except SyntaxError Ty :=
  parseWith (fun rules => rules.type true) tokens

/-- Parse tokens as an expression. -/
def parseExpr (tokens : Tokens) : Except SyntaxError Expr :=
  parseWith (fun rules => rules.expr true) tokens

/-- Parse tokens as an item. -/
def parseItem (tokens : Tokens) : Except SyntaxError Item :=
  parseWith (fun rules => rules.item) tokens

/-- Parse tokens as a visibility. -/
def parseVisibility (tokens : Tokens) : Except SyntaxError Visibility :=
  parseWith (fun _ => visibility) tokens

/-- Read a text and parse its tokens. A text that is no sequence of tokens is a failed parse. -/
def parseText {α : Type} (parser : Tokens → Except SyntaxError α) (source : String) :
    Except SyntaxError α :=
  match Tokens.read source with
  | .ok tokens => parser tokens
  | .error pos => .error ⟨pos, .unreadable⟩

/-- The items of a file. -/
def parseItems (tokens : Tokens) : Except SyntaxError (List Item) :=
  parseWith
    (fun rules => do
      let _ ← innerAttributes rules
      repeatWhile (fun ts => !ts.isEmpty) rules.item)
    tokens

/-- How many characters of blanks and plain comments stand at the front of a text. -/
def blankLength (cs : List Char) : Nat :=
  match cs with
  | [] => 0
  | c :: rest =>
    if Text.isBlank c then blankLength rest + 1
    else
      match Comment.plainLength (c :: rest) with
      | some (n + 1) => blankLength (rest.drop n) + (n + 1)
      | _ => 0
termination_by cs.length
decreasing_by all_goals simp only [List.length_cons, List.length_drop]; omega

/-- A text without a byte order mark and without an interpreter line at its front. The line keeps its
end, so that places stay as they are. An attribute of the file is no interpreter line. -/
def withoutShebang (source : String) : String :=
  let cs := match source.toList with
    | '\ufeff' :: rest => rest
    | cs => cs
  match cs with
  | '#' :: '!' :: rest =>
    if (rest.drop (blankLength rest)).head? = some '[' then String.ofList cs
    else String.ofList (cs.dropWhile (· != '\n'))
  | _ => String.ofList cs

/-- Read a source file and parse its items. -/
def parseFile (source : String) : Except SyntaxError (List Item) :=
  parseText parseItems (withoutShebang source)

end Fieldwise.Grammar
