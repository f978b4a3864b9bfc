import Fieldwise.Text.Character

/-!
# Number literals

A number begins with a digit. It is a whole number in base ten, sixteen, eight or two, or a decimal
fraction with a point, an exponent, or both. A word that follows without a blank is its suffix.
-/

namespace Fieldwise.Number

open Fieldwise.Text

/-- How many characters the identifier at the head of a text has; zero if there is none. -/
def wordLength : List Char → Nat
  | [] => 0
  | c :: rest => if isIdentStart c then (rest.takeWhile isIdentContinue).length + 1 else 0

/-- A digit or the underscore that may stand between digits. -/
def isDigitOrBlank (c : Char) : Bool := isDigit c || c == '_'

/-- How many characters of an exponent follow its letter: digits, after at most one sign. -/
def exponentLength (cs : List Char) : Option Nat :=
  let first := cs.takeWhile isDigitOrBlank
  if first.any isDigit then some first.length
  else
    match cs.drop first.length with
    | sign :: rest =>
      let digits := rest.takeWhile isDigitOrBlank
      if (sign == '+' || sign == '-') && digits.any isDigit then
        some (first.length + 1 + digits.length)
      else none
    | [] => none

/-- How many characters the point and the digits after it have. A point before another point or
before a word is no decimal point, and the text is then no fraction at all. -/
def pointLength (cs : List Char) : Option Nat :=
  match cs with
  | '.' :: rest =>
    if rest.head?.any fun c => c == '.' || isIdentStart c then none
    else some ((rest.takeWhile isDigitOrBlank).length + 1)
  | _ => some 0

/-- How many characters a decimal fraction has without its suffix. -/
def fractionLength (cs : List Char) : Option Nat :=
  match cs with
  | [] => none
  | c :: rest =>
    if !isDigit c then none
    else
      let whole := (rest.takeWhile isDigitOrBlank).length + 1
      match pointLength (cs.drop whole) with
      | none => none
      | some point =>
        let mantissa := whole + point
        let withPoint := if point = 0 then none else some mantissa
        match cs.drop mantissa with
        | letter :: more =>
          if letter == 'e' || letter == 'E' then
            match exponentLength more with
            | some n => some (mantissa + 1 + n)
            | none => withPoint
          else withPoint
        | [] => withPoint

/-- The base that the first two characters of a whole number announce, and how many characters the
announcement takes. -/
def base : List Char → Nat × Nat
  | '0' :: 'x' :: _ => (16, 2)
  | '0' :: 'o' :: _ => (8, 2)
  | '0' :: 'b' :: _ => (2, 2)
  | _ => (10, 0)

/-- Whether a character can belong to the digits of a number in a base. -/
def inDigits (radix : Nat) (c : Char) : Bool :=
  isDigitOrBlank c || (radix == 16 && isHexDigit c)

/-- How many characters a whole number has without its suffix. -/
def wholeLength (cs : List Char) : Option Nat :=
  let (radix, skip) := base cs
  let digits := (cs.drop skip).takeWhile (inDigits radix)
  if digits.any fun c => isDigit c && radix ≤ hexValue c then none
  else if radix == 10 && digits.head? == some '_' then none
  else if digits.any isHexDigit then some (skip + digits.length)
  else none

/-- Add the suffix; a number may not run into a character that only continues a word. -/
def withSuffix (cs : List Char) (n : Nat) : Option Nat :=
  let total := n + wordLength (cs.drop n)
  if (cs.drop total).head?.any isIdentContinue then none else some total

/-- How many characters the number at the head of a text has, suffix included. -/
def length (cs : List Char) : Option Nat :=
  match (fractionLength cs).bind (withSuffix cs) with
  | some n => some n
  | none => (wholeLength cs).bind (withSuffix cs)

end Fieldwise.Number
