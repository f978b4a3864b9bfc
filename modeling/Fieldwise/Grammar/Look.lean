import Fieldwise.Token

/-!
# Looking ahead in tokens

Tests on the tokens that come next. Invisible groups are opened up wherever a word, a punctuation
character, a literal or a delimited group is looked for, so a unit put together from parts reads like
the parts themselves. An operator is found when its characters follow each other joined; what follows
its last character does not matter. A lifetime is an apostrophe with its word, and no operator.
-/

namespace Fieldwise.Grammar

mutual

/-- Open up a token that stands before others; nothing if it has no visible content. -/
def openToken : Token → Tokens → Option Tokens
  | .group .invisible body _ _, rest => openTokens body rest
  | token, rest => some (token :: rest)

/-- Open up the first token with visible content. -/
def openTokens : Tokens → Tokens → Option Tokens
  | [], _ => none
  | token :: more, rest =>
    match openToken token (more ++ rest) with
    | some found => some found
    | none => openTokens more rest

end

/-- The tokens with invisible groups at their front opened up. -/
def bare (tokens : Tokens) : Tokens := (openTokens tokens []).getD []

/-- Remove an operator from the front. -/
def dropOp : List Char → Tokens → Option Tokens
  | [], tokens => some tokens
  | c :: more, tokens =>
    match bare tokens with
    | .punct d spacing _ :: rest =>
      if c = d ∧ c ≠ '\'' then
        if more.isEmpty then some rest
        else if spacing = .joint then dropOp more rest
        else none
      else none
    | _ => none

/-- Remove one token tree from the front; a lifetime counts as one. -/
def dropTree (tokens : Tokens) : Option Tokens :=
  match bare tokens with
  | [] => none
  | .punct '\'' .joint _ :: .ident _ _ :: rest => some rest
  | _ :: rest => some rest

/-- The words that name nothing but a part of the grammar. -/
def keywords : List String :=
  ["_", "abstract", "as", "async", "await", "become", "box", "break", "const", "continue",
    "crate", "do", "dyn", "else", "enum", "extern", "false", "final", "fn", "for", "if", "impl",
    "in", "let", "loop", "macro", "match", "mod", "move", "mut", "override", "priv", "pub", "ref",
    "return", "Self", "self", "static", "struct", "super", "trait", "true", "try", "type",
    "typeof", "unsafe", "unsized", "use", "virtual", "where", "while", "yield"]

/-- Whether a word is reserved. -/
def isKeyword (name : String) : Bool := keywords.contains name

namespace Look

/-- An operator comes next. -/
def op (text : String) (tokens : Tokens) : Bool := (dropOp text.toList tokens).isSome

/-- This word comes next. -/
def word (name : String) (tokens : Tokens) : Bool :=
  match bare tokens with
  | .ident found _ :: _ => found == name
  | _ => false

/-- One of these words comes next. -/
def words (names : List String) (tokens : Tokens) : Bool := names.any fun name => word name tokens

/-- Some word comes next, reserved or not. -/
def anyWord (tokens : Tokens) : Bool :=
  match bare tokens with
  | .ident _ _ :: _ => true
  | _ => false

/-- A name comes next: a word that is not reserved. -/
def ident (tokens : Tokens) : Bool :=
  match bare tokens with
  | .ident found _ :: _ => !isKeyword found
  | _ => false

/-- A lifetime comes next. -/
def lifetime (tokens : Tokens) : Bool :=
  match bare tokens with
  | .punct '\'' .joint _ :: .ident _ _ :: _ => true
  | _ => false

/-- A group with this delimiter comes next. -/
def group (delim : Delim) (tokens : Tokens) : Bool :=
  match delim with
  | .invisible =>
    match tokens with
    | .group .invisible _ _ _ :: _ => true
    | _ => false
  | _ =>
    match bare tokens with
    | .group found _ _ _ :: _ => found == delim
    | _ => false

/-- The test holds after one token tree. -/
def second (test : Tokens → Bool) (tokens : Tokens) : Bool := (dropTree tokens).any test

/-- The test holds after two token trees. -/
def third (test : Tokens → Bool) (tokens : Tokens) : Bool :=
  ((dropTree tokens).bind dropTree).any test

/-- One of the tests holds. -/
def any (tests : List (Tokens → Bool)) (tokens : Tokens) : Bool := tests.any fun test => test tokens

end Look

end Fieldwise.Grammar
