import Fieldwise.Text.Character

/-!
# Escaped text

A text between double quotes shows its printable characters as they are and escapes the others:
the usual one-letter escapes, and the code point in hexadecimal for everything that has no glyph of
its own. A literal and a diagnostic differ in one point only: in a literal a zero character
before an octal digit is written out, so that the two are not read together.
-/

namespace Fieldwise.Text

/-- The hexadecimal digits of a number, lower case, without leading zeros. -/
def hexDigits (n : Nat) : List Char := Nat.toDigits 16 n

/-- A code point in braces: backslash, `u`, and its hexadecimal digits. -/
def escapePoint (c : Char) : List Char := ['\\', 'u', '{'] ++ hexDigits c.toNat ++ ['}']

/-- How a character is written inside double quotes. -/
def escapeChar (c : Char) : List Char :=
  if c = '\x00' then ['\\', '0']
  else if c = '\t' then ['\\', 't']
  else if c = '\r' then ['\\', 'r']
  else if c = '\n' then ['\\', 'n']
  else if c = '\\' then ['\\', '\\']
  else if c = '"' then ['\\', '"']
  else if isCombining c || !isPrintable c then escapePoint c
  else [c]

/-- The inside of a string literal with the given value. -/
def escapeLiteral : List Char → List Char
  | [] => []
  | c :: rest =>
    let shown :=
      match c, rest with
      | '\x00', d :: _ =>
        if '0' ≤ d && d ≤ '7' then ['\\', 'x', '0', '0'] else ['\\', '0']
      | _, _ => escapeChar c
    shown ++ escapeLiteral rest

/-- The string literal with the given value. -/
def quoteLiteral (value : String) : String :=
  String.ofList ('"' :: escapeLiteral value.toList ++ ['"'])

/-- A text as a diagnostic shows it: between double quotes, escaped character by character. -/
def quoteShown (value : String) : String :=
  String.ofList ('"' :: value.toList.flatMap escapeChar ++ ['"'])

end Fieldwise.Text
