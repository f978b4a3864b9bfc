import Fieldwise.Text.Character
import Fieldwise.Token

/-!
# Writing tokens

Tokens are written on one line with the blanks a reader expects: none around a path separator, one
after a comma, one on both sides of a binary operator. The text is built back to front, so that the
last character written is at hand when the next token decides whether it needs a blank.
-/

namespace Fieldwise

namespace Printer

open Fieldwise.Text

/-- A text under construction, last character first. -/
abbrev Draft := List Char

namespace Draft

/-- Append characters in reading order. -/
def append (draft : Draft) (text : List Char) : Draft := text.reverse ++ draft

/-- Remove the blanks at the end. -/
def trimEnd (draft : Draft) : Draft := draft.dropWhile (· == ' ')

/-- The text in reading order without blanks at either end. -/
def finish (draft : Draft) : List Char := (trimEnd draft).reverse.dropWhile (· == ' ')

/-- The characters after which a word needs a blank, apart from letters and digits. -/
def wordEnds : List Char := ['_', ')', ']', '"', '?', '>']

/-- The characters that end an operand, apart from letters and digits. -/
def operandEnds : List Char := ['_', ')', ']', '"']

/-- Separate a word from what it would run into. -/
def wordGap (draft : Draft) : Draft :=
  match draft with
  | c :: _ => if isAlphanumeric c || wordEnds.contains c then ' ' :: draft else draft
  | [] => draft

/-- The word at the end of the text. -/
def lastWord (draft : Draft) : List Char :=
  (draft.takeWhile fun c => isAlphanumeric c || c == '_').reverse

/-- The keywords that keep a blank before an opening parenthesis or bracket. -/
def gapKeywords : List String := ["mut", "dyn", "impl", "as", "in", "const", "return", "move"]

/-- Separate an opening parenthesis or bracket from a keyword. -/
def keywordGap (draft : Draft) : Draft :=
  if gapKeywords.contains (String.ofList draft.lastWord) then ' ' :: draft else draft

/-- Whether the text ends with an operand, so that a sign after it is a binary operator. -/
def followsOperand (draft : Draft) : Bool :=
  match draft.trimEnd with
  | c :: _ => isAlphanumeric c || operandEnds.contains c
  | [] => false

/-- Append an operator with a blank on both sides. -/
def spaced (draft : Draft) (op : List Char) : Draft :=
  append draft.trimEnd ([' '] ++ op ++ [' '])

end Draft

/-- How an operator is set off from its neighbours. -/
inductive Setting where
  /-- A blank after it and none before. -/
  | after
  /-- A blank on both sides. -/
  | around
  /-- A blank on both sides after an operand, none otherwise. -/
  | binary
  /-- No blanks. -/
  | tight
  deriving DecidableEq

/-- How each operator is set. -/
def setting (op : String) : Setting :=
  if [",", ";", ":"].contains op then .after
  else if ["+", "=", "->", "=>", "==", "!=", "<=", ">=", "&&", "||", "+=", "-=", "*=", "/=", "/",
      "%", "^"].contains op then .around
  else if ["-", "&", "*"].contains op then .binary
  else .tight

/-- Write the operator whose characters have been collected. -/
def writeOp (draft : Draft) (op : List Char) : Draft :=
  match op with
  | [] => draft
  | _ =>
    match setting (String.ofList op) with
    | .after => draft.trimEnd.append (op ++ [' '])
    | .around => draft.spaced op
    | .binary => if draft.followsOperand then draft.spaced op else draft.append op
    | .tight => draft.append op

/-- The text that opens and the text that closes a group. -/
def marks : Delim → List Char × List Char
  | .paren => (['('], [')'])
  | .bracket => (['['], [']'])
  | .brace => (['{', ' '], [' ', '}'])
  | .invisible => ([], [])

/-- The blank that a group needs before it. -/
def groupGap (draft : Draft) : Delim → Draft
  | .paren | .bracket => draft.keywordGap
  | .brace => draft.wordGap
  | .invisible => draft

/-- Append a group whose inside is already written. An empty group keeps no blanks inside. -/
def writeGroup (draft : Draft) (delim : Delim) (inside : List Char) : Draft :=
  let (left, right) := marks delim
  let whole :=
    if inside.isEmpty then left.filter (· != ' ') ++ right.filter (· != ' ')
    else left ++ inside ++ right
  (groupGap draft delim).append whole

/-- A text under construction and the punctuation collected after it. -/
structure Sheet where
  /-- The text, last character first. -/
  draft : Draft
  /-- The characters of the operator that is not complete yet, in reading order. -/
  op : List Char

namespace Sheet

/-- The sheet before anything is written. -/
def empty : Sheet := ⟨[], []⟩

/-- The text once the collected operator is written too. -/
def settle (sheet : Sheet) : Draft := writeOp sheet.draft sheet.op

/-- Write a word or a literal. -/
def word (sheet : Sheet) (text : String) : Sheet := ⟨sheet.settle.wordGap.append text.toList, []⟩

/-- Collect a punctuation character; one that stands alone completes its operator. -/
def punct (sheet : Sheet) (c : Char) : Spacing → Sheet
  | .joint => ⟨sheet.draft, sheet.op ++ [c]⟩
  | .alone => ⟨writeOp sheet.draft (sheet.op ++ [c]), []⟩

end Sheet

mutual

/-- Write one token tree. -/
def writeToken (sheet : Sheet) : Token → Sheet
  | .ident name _ => sheet.word name
  | .literal text _ => sheet.word text
  | .punct c spacing _ => sheet.punct c spacing
  | .group delim body _ _ =>
    ⟨writeGroup sheet.settle delim (writeTokens .empty body).settle.finish, []⟩

/-- Write token trees one after the other. -/
def writeTokens (sheet : Sheet) : Tokens → Sheet
  | [] => sheet
  | token :: rest => writeTokens (writeToken sheet token) rest

end

end Printer

/-- Tokens as source text. -/
def Tokens.text (tokens : Tokens) : String :=
  String.ofList (Printer.writeTokens .empty tokens).settle.finish

end Fieldwise
