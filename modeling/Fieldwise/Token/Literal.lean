import Fieldwise.Token.Number
import Fieldwise.Token.Quoted

/-!
# What a literal stands for

The text of a literal tells its kind: its first character separates quoted texts from numbers, and a
number is whole unless it has a point or an exponent with digits. A word at the end of a number is its
suffix. A number may have a minus sign in front, which a reader has joined to it.
-/

namespace Fieldwise.Literal

open Fieldwise.Text

/-- The kinds of literals, with what the library needs to know of each. -/
inductive Kind where
  /-- A text with its value. -/
  | text (value : String)
  /-- A character with its value. -/
  | char (value : Char)
  /-- A whole number with its suffix. -/
  | whole (suffix : String)
  /-- A fraction with its suffix. -/
  | fraction (suffix : String)
  /-- A byte, a byte text, or a zero-terminated text. -/
  | bytes
  /-- None of these. -/
  | unknown
  deriving DecidableEq, Inhabited

/-- The rest of a number as its suffix, if it is a word or nothing. -/
def asSuffix (cs : List Char) : Option (List Char) :=
  if cs.isEmpty || isIdentifier cs then some cs else none

/-- Whether the characters after an exponent letter make the number a fraction. -/
def isExponent (cs : List Char) : Bool :=
  let run := cs.takeWhile Number.isDigitOrBlank
  let digits := run.any isDigit
  match cs.drop run.length with
  | [] => digits
  | c :: rest => c == '+' || c == '-' || (digits && isIdentifier (c :: rest))

/-- The suffix of a whole number, from its digits on. -/
def wholeSuffix (radix : Nat) : Bool → List Char → Option (List Char)
  | seen, [] => if seen then some [] else none
  | seen, c :: rest =>
    if isDigit c then
      if radix ≤ hexValue c then none else wholeSuffix radix true rest
    else if radix == 16 && isHexDigit c then wholeSuffix radix true rest
    else if c == '_' then wholeSuffix radix seen rest
    else if c == '.' && radix == 10 then none
    else if (c == 'e' || c == 'E') && radix == 10 && isExponent rest then none
    else if seen then asSuffix (c :: rest)
    else none

/-- The suffix of a literal that is a whole number. -/
def whole? (cs : List Char) : Option (List Char) :=
  let unsigned := if cs.head? == some '-' then cs.drop 1 else cs
  match unsigned with
  | [] => none
  | c :: _ =>
    if isDigit c then
      let (radix, skip) := Number.base unsigned
      wholeSuffix radix false (unsigned.drop skip)
    else none

/-- What a reader has seen of a fraction. -/
structure FractionState where
  /-- A point. -/
  point : Bool
  /-- An exponent letter. -/
  letter : Bool
  /-- A sign in the exponent. -/
  sign : Bool
  /-- A digit of the exponent. -/
  exponent : Bool

/-- The suffix of a fraction, once its digits have ended. -/
def FractionState.close (state : FractionState) (rest : List Char) : Option (List Char) :=
  if state.letter && !state.exponent then none else asSuffix rest

/-- Whether an exponent goes on after its letter. -/
def exponentFollows (cs : List Char) : Bool :=
  match cs.dropWhile (· == '_') with
  | c :: _ => c == '-' || c == '+' || isDigit c
  | [] => false

/-- The suffix of a fraction, from its digits on. -/
def fractionSuffix (state : FractionState) : List Char → Option (List Char)
  | [] => state.close []
  | c :: rest =>
    if c == '_' then fractionSuffix state rest
    else if isDigit c then
      fractionSuffix { state with exponent := state.exponent || state.letter } rest
    else if c == '.' then
      if state.letter || state.point then none else fractionSuffix { state with point := true } rest
    else if c == 'e' || c == 'E' then
      if !exponentFollows rest then state.close (c :: rest)
      else if state.letter then if state.exponent then state.close (c :: rest) else none
      else fractionSuffix { state with letter := true } rest
    else if c == '-' || c == '+' then
      if state.sign || state.exponent || !state.letter then none
      else fractionSuffix { state with sign := true } rest
    else state.close (c :: rest)

/-- The suffix of a literal that is a number of any kind. -/
def fraction? (cs : List Char) : Option (List Char) :=
  let unsigned := if cs.head? == some '-' then cs.drop 1 else cs
  match unsigned with
  | [] => none
  | c :: _ => if isDigit c then fractionSuffix ⟨false, false, false, false⟩ unsigned else none

/-- The kind of a number. -/
def numberKind (cs : List Char) : Kind :=
  match whole? cs with
  | some suffix => .whole (String.ofList suffix)
  | none =>
    match fraction? cs with
    | some suffix => .fraction (String.ofList suffix)
    | none => .unknown

/-- The value of a character literal, from after its opening apostrophe. -/
def charValue : List Char → Char
  | '\\' :: rest => (Quoted.cookedValue .text .escape rest).headD '\x00'
  | c :: _ => c
  | [] => '\x00'

/-- The kind of a literal with this text. -/
def kind (text : String) : Kind :=
  match text.toList with
  | '"' :: rest => .text (String.ofList (Quoted.cookedValue .text .plain rest))
  | 'r' :: rest => .text (String.ofList (Quoted.rawValue rest))
  | 'b' :: _ | 'c' :: _ => .bytes
  | '\'' :: rest => .char (charValue rest)
  | cs => numberKind cs

end Fieldwise.Literal
