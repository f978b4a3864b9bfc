import Fieldwise.Text.Escape
import Fieldwise.Token
import Fieldwise.Token.Comment
import Fieldwise.Token.Number
import Fieldwise.Token.Quoted

/-!
# Reading tokens

A text is cut into pieces from its front: blanks and comments vanish, every other piece is a
delimiter or a token. The pieces are then nested by their delimiters. The first place at which either
step gives up is where the whole text fails; a delimiter that is never closed fails where it opens.
-/

namespace Fieldwise

namespace Lexer

open Fieldwise.Text

/-- The next thing in a text: one side of a group, or a token that is complete. -/
inductive Lexeme where
  | opening (delim : Delim) (pos : Pos)
  | closing (delim : Delim) (pos : Pos)
  | leaf (token : Token)

/-- The characters that are punctuation. -/
def punctuation : List Char :=
  ['~', '!', '@', '#', '$', '%', '^', '&', '*', '-', '=', '<', '>', '.', ',', ';', ':', '+', '/',
    '|', '?', '\'']

/-- Whether a text begins with punctuation. The slash of a comment is none. -/
def startsPunct : List Char → Bool
  | '/' :: '/' :: _ => false
  | '/' :: '*' :: _ => false
  | c :: _ => punctuation.contains c
  | [] => false

/-- Words that no raw identifier may have. -/
def unrawable : List String := ["_", "super", "self", "Self", "crate"]

/-- How many characters the identifier at the head of a text has, a raw marker included. -/
def identLength (cs : List Char) : Option Nat :=
  match cs with
  | 'r' :: '#' :: rest =>
    match Number.wordLength rest with
    | 0 => none
    | n => if unrawable.contains (String.ofList (rest.take n)) then none else some (n + 2)
  | _ =>
    match Number.wordLength cs with
    | 0 => none
    | n => some n

/-- Whether a text begins like a quoted literal, so that it cannot be an identifier. -/
def startsQuoted : List Char → Bool
  | 'r' :: '"' :: _ | 'r' :: '#' :: '"' :: _ | 'r' :: '#' :: '#' :: _ => true
  | 'b' :: '"' :: _ | 'b' :: '\'' :: _ | 'b' :: 'r' :: '"' :: _ | 'b' :: 'r' :: '#' :: _ => true
  | 'c' :: '"' :: _ | 'c' :: 'r' :: '"' :: _ | 'c' :: 'r' :: '#' :: _ => true
  | _ => false

/-- How many characters the literal at the head of a text has, suffix included. -/
def literalLength (cs : List Char) : Option Nat :=
  match Quoted.length cs with
  | some n => some (n + Number.wordLength (cs.drop n))
  | none => Number.length cs

/-- Whether the apostrophe before this text begins a lifetime. -/
def startsLifetime (cs : List Char) : Bool :=
  match identLength cs with
  | none => false
  | some n =>
    match cs.drop n with
    | '\'' :: _ => false
    | '#' :: _ => cs.take 2 == ['r', '#']
    | _ => true

/-- The punctuation token at the head of a text. -/
def punct? (pos : Pos) (cs : List Char) : Option Token :=
  match cs with
  | [] => none
  | c :: rest =>
    if !startsPunct cs then none
    else if c = '\'' then
      if startsLifetime rest then some (.punct c .joint pos) else none
    else some (.punct c (if startsPunct rest then .joint else .alone) pos)

/-- What stands for a literal that could not be written. It is a literal itself, not a group. -/
def placeholder : String := "(/*ERROR*/)"

/-- The token at the head of a text, with its length. Literals are tried before identifiers, since
some of them begin with a letter. -/
def leaf? (pos : Pos) (cs : List Char) : Option (Nat × Token) :=
  match literalLength cs with
  | some n => some (n, .literal (String.ofList (cs.take n)) pos)
  | none =>
    match punct? pos cs with
    | some token => some (1, token)
    | none =>
      if placeholder.toList.isPrefixOf cs then
        some (placeholder.length, .literal placeholder pos)
      else if startsQuoted cs then none
      else (identLength cs).map fun n => (n, .ident (String.ofList (cs.take n)) pos)

/-- The delimiter that a character opens. -/
def opens? : Char → Option Delim
  | '(' => some .paren
  | '[' => some .bracket
  | '{' => some .brace
  | _ => none

/-- The delimiter that a character closes. -/
def closes? : Char → Option Delim
  | ')' => some .paren
  | ']' => some .bracket
  | '}' => some .brace
  | _ => none

/-- The tokens of a documenting comment: an attribute that holds its text. All of them stand where
the comment begins; the group ends at its last character. -/
def docTokens (pos last : Pos) (doc : Comment.Doc) : Tokens :=
  let mark := if doc.inner then [.punct '#' .alone pos, .punct '!' .alone pos]
    else [.punct '#' .alone pos]
  mark ++ [.group .bracket
    [.ident "doc" pos, .punct '=' .alone pos,
      .literal (quoteLiteral (String.ofList doc.text)) pos] pos last]

/-- The delimiter that the head of a text opens. -/
def opening? (cs : List Char) : Option Delim :=
  if placeholder.toList.isPrefixOf cs then none else cs.head?.bind opens?

/-- The piece at the head of a text: how many characters it has, and what it contributes. -/
def piece? (pos : Pos) (cs : List Char) : Option (Nat × List Lexeme) :=
  match cs with
  | [] => none
  | c :: _ =>
    if isBlank c then some (1, [])
    else
      match Comment.plainLength cs with
      | some n => some (n, [])
      | none =>
        match Comment.doc? cs with
        | some doc =>
          some (doc.length,
            (docTokens pos (pos.advance (cs.take (doc.length - 1))) doc).map .leaf)
        | none =>
          match opening? cs with
          | some delim => some (1, [.opening delim pos])
          | none =>
            match closes? c with
            | some delim => some (1, [.closing delim pos])
            | none => (leaf? pos cs).map fun (n, token) => (n, [.leaf token])

/-- The lexemes of a text up to the first place that begins none. -/
def lexemes (pos : Pos) (cs : List Char) : List Lexeme × Option Pos :=
  match cs with
  | [] => ([], none)
  | c :: rest =>
    match piece? pos (c :: rest) with
    | none | some (0, _) => ([], some pos)
    | some (n + 1, found) =>
      let (more, bad) := lexemes (pos.advance (c :: rest.take n)) (rest.drop n)
      (found ++ more, bad)
termination_by cs.length
decreasing_by simp only [List.length_drop, List.length_cons]; omega

/-- A group that is still open: its delimiter, where it opened, and what stood before it. -/
structure Frame where
  /-- The delimiter that has to close it. -/
  delim : Delim
  /-- Where it opened. -/
  opening : Pos
  /-- The tokens before it in the enclosing group, last one first. -/
  before : List Token

/-- Nest lexemes by their delimiters. The tokens of the innermost group are collected last one
first. At the end the text must not have failed and no group may be open. -/
def nest (bad : Option Pos) : List Frame → List Token → List Lexeme → Except Pos Tokens
  | stack, done, [] =>
    match bad, stack with
    | some pos, _ => .error pos
    | none, frame :: _ => .error frame.opening
    | none, [] => .ok done.reverse
  | stack, done, .leaf token :: rest => nest bad stack (token :: done) rest
  | stack, done, .opening delim pos :: rest => nest bad (⟨delim, pos, done⟩ :: stack) [] rest
  | [], _, .closing _ pos :: _ => .error pos
  | frame :: stack, done, .closing delim pos :: rest =>
    if frame.delim = delim then
      nest bad stack (.group delim done.reverse frame.opening pos :: frame.before) rest
    else .error pos

/-- The tokens of characters that begin at a place. -/
def tokensFrom (pos : Pos) (cs : List Char) : Except Pos Tokens :=
  let (found, bad) := lexemes pos cs
  nest bad [] [] found

end Lexer

/-- The tokens of a text, or the place where it is no sequence of tokens. A byte order mark at
the front takes a column and is otherwise passed over. -/
def Tokens.read (source : String) : Except Pos Tokens :=
  match source.toList with
  | '\ufeff' :: rest => Lexer.tokensFrom (Pos.callSite.next '\ufeff') rest
  | cs => Lexer.tokensFrom Pos.callSite cs

end Fieldwise
