import Fieldwise.Toml.Reader

/-!
# Quoted text in configuration files

Text between double quotes with escapes, or between single quotes without any. Tripled quotes stand around a
text of several lines: a line end right behind the opening quotes is no part of it, every line end counts as
one line feed, and one or two quotes may stand anywhere in it, also right before the closing ones. In double
quotes a backslash at the end of a line takes out that line end and all blanks and line ends behind it.
-/

namespace Fieldwise.Toml.Reader

/-- What the letter behind a backslash stands for. -/
def escapeOf? : Char → Option Char
  | 'b' => some '\x08'
  | 't' => some '\t'
  | 'n' => some '\n'
  | 'f' => some '\x0c'
  | 'r' => some '\r'
  | '"' => some '"'
  | '\\' => some '\\'
  | _ => none

/-- The value of a hexadecimal digit. -/
def hexDigit? (c : Char) : Option Nat :=
  if '0' ≤ c && c ≤ '9' then some (c.toNat - '0'.toNat)
  else if 'a' ≤ c && c ≤ 'f' then some (c.toNat - 'a'.toNat + 10)
  else if 'A' ≤ c && c ≤ 'F' then some (c.toNat - 'A'.toNat + 10)
  else none

/-- The value of hexadecimal digits behind others. -/
def hexValue? (value : Nat) : List Char → Option Nat
  | [] => some value
  | c :: rest =>
    match hexDigit? c with
    | some digit => hexValue? (16 * value + digit) rest
    | none => none

/-- The character with a code point, if there is one. -/
def scalar? (point : Nat) : Option Char :=
  if h : point.isValidChar then some (Char.ofNatAux point h) else none

/-- The character that hexadecimal digits stand for. -/
def hexChar? (digits : List Char) : Option Char := (hexValue? 0 digits).bind scalar?

/-- A character that stands for itself in double quotes. -/
def isPlainChar (c : Char) : Bool := isCommentChar c && c != '"' && c != '\\'

/-- A character that stands for itself in single quotes. -/
def isRawChar (c : Char) : Bool := isCommentChar c && c != '\''

/-- Put a character in front of the text that is read next. -/
def andThen (c : Option Char) (next : Option (List Char × List Char)) :
    Option (List Char × List Char) :=
  match c, next with
  | some c, some (value, rest) => some (c :: value, rest)
  | _, _ => none

/-- The rest of a text in double quotes, up to the closing one. -/
def plainBody : List Char → Option (List Char × List Char)
  | '"' :: rest => some ([], rest)
  | '\\' :: 'u' :: a :: b :: c :: d :: rest => andThen (hexChar? [a, b, c, d]) (plainBody rest)
  | '\\' :: 'U' :: a :: b :: c :: d :: e :: f :: g :: h :: rest =>
    andThen (hexChar? [a, b, c, d, e, f, g, h]) (plainBody rest)
  | '\\' :: c :: rest => andThen (escapeOf? c) (plainBody rest)
  | c :: rest => if isPlainChar c then andThen (some c) (plainBody rest) else none
  | [] => none

/-- Whether only blanks stand before the next line end. -/
def endsLine (cs : List Char) : Bool :=
  match cs.dropWhile isBlank with
  | '\n' :: _ => true
  | '\r' :: '\n' :: _ => true
  | _ => false

/-- The rest of a text of several lines in double quotes. While joining, blanks and line ends are taken out. -/
def longBody (joining : Bool) : List Char → Option (List Char × List Char)
  | '"' :: '"' :: '"' :: '"' :: '"' :: rest => some (['"', '"'], rest)
  | '"' :: '"' :: '"' :: '"' :: rest => some (['"'], rest)
  | '"' :: '"' :: '"' :: rest => some ([], rest)
  | '"' :: rest => andThen (some '"') (longBody false rest)
  | '\r' :: '\n' :: rest =>
    if joining then longBody true rest else andThen (some '\n') (longBody false rest)
  | '\n' :: rest =>
    if joining then longBody true rest else andThen (some '\n') (longBody false rest)
  | '\\' :: 'u' :: a :: b :: c :: d :: rest =>
    andThen (hexChar? [a, b, c, d]) (longBody false rest)
  | '\\' :: 'U' :: a :: b :: c :: d :: e :: f :: g :: h :: rest =>
    andThen (hexChar? [a, b, c, d, e, f, g, h]) (longBody false rest)
  | '\\' :: c :: rest =>
    if endsLine (c :: rest) then longBody true (c :: rest)
    else andThen (escapeOf? c) (longBody false rest)
  | c :: rest =>
    if joining && isBlank c then longBody true rest
    else if isPlainChar c then andThen (some c) (longBody false rest)
    else none
  | [] => none

/-- The rest of a text of several lines in single quotes. -/
def longRawBody : List Char → Option (List Char × List Char)
  | '\'' :: '\'' :: '\'' :: '\'' :: '\'' :: rest => some (['\'', '\''], rest)
  | '\'' :: '\'' :: '\'' :: '\'' :: rest => some (['\''], rest)
  | '\'' :: '\'' :: '\'' :: rest => some ([], rest)
  | '\'' :: rest => andThen (some '\'') (longRawBody rest)
  | '\r' :: '\n' :: rest => andThen (some '\n') (longRawBody rest)
  | '\n' :: rest => andThen (some '\n') (longRawBody rest)
  | c :: rest => if isRawChar c then andThen (some c) (longRawBody rest) else none
  | [] => none

/-- Text on one line in double quotes. -/
def plainText : Reader String := do
  char '"'
  String.ofList <$> plainBody

/-- Text on one line in single quotes. -/
def rawText : Reader String := do
  char '\''
  let value ← run isRawChar
  char '\''
  return String.ofList value

/-- Text of several lines in double quotes. -/
def longText : Reader String := do
  literal "\"\"\""
  let _ ← perhaps newline
  String.ofList <$> longBody false

/-- Text of several lines in single quotes. -/
def longRawText : Reader String := do
  literal "'''"
  let _ ← perhaps newline
  String.ofList <$> longRawBody

/-- Text in quotes. -/
def quoted : Reader String := longText <|> plainText <|> longRawText <|> rawText

end Fieldwise.Toml.Reader
