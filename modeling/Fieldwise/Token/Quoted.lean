import Fieldwise.Text.Character

/-!
# Quoted literals

Texts, byte texts and zero-terminated texts between double quotes, with or without escapes, and
single characters between apostrophes. A reader says how many characters a literal has; the same
automaton gives the value that the escapes stand for.
-/

namespace Fieldwise.Quoted

open Fieldwise.Text

/-- The kinds of quoted text, which differ in the characters and escapes they admit. -/
inductive Flavour where
  /-- A text of any characters. -/
  | text
  /-- ASCII characters and arbitrary byte escapes. -/
  | bytes
  /-- A text without the zero character. -/
  | terminated
  deriving DecidableEq

/-- Where a reader stands inside a text between double quotes. -/
inductive State where
  /-- Between two characters of the text. -/
  | plain
  /-- After a carriage return, which a line feed has to follow. -/
  | carriage
  /-- After a backslash. -/
  | escape
  /-- Before the first digit of a byte escape. -/
  | hexHigh
  /-- Before the second digit of a byte escape, with the value of the first. -/
  | hexLow (high : Nat)
  /-- Before the brace of a code point escape. -/
  | pointOpen
  /-- Inside a code point escape: the value so far and how many digits it has. -/
  | point (value digits : Nat)
  /-- In the white space that an escaped line end removes. -/
  | gap
  /-- After a carriage return in that white space. -/
  | gapCarriage
  deriving DecidableEq

/-- Move on from plain text. -/
def plainStep (flavour : Flavour) (c : Char) : Option (State × Option Char) :=
  if c = '\\' then some (.escape, none)
  else if c = '\r' then some (.carriage, none)
  else
    match flavour with
    | .text => some (.plain, some c)
    | .bytes => if isAscii c then some (.plain, some c) else none
    | .terminated => if c = '\x00' then none else some (.plain, some c)

/-- The character that a one-letter escape stands for. -/
def simpleEscape (flavour : Flavour) (c : Char) : Option Char :=
  match c with
  | 'n' => some '\n'
  | 'r' => some '\r'
  | 't' => some '\t'
  | '\\' => some '\\'
  | '\'' => some '\''
  | '"' => some '"'
  | '0' => if flavour = .terminated then none else some '\x00'
  | _ => none

/-- Move on from a backslash. -/
def escapeStep (flavour : Flavour) (c : Char) : Option (State × Option Char) :=
  if c = 'x' then some (.hexHigh, none)
  else if c = 'u' then
    if flavour = .bytes then none else some (.pointOpen, none)
  else if c = '\n' then some (.gap, none)
  else if c = '\r' then some (.gapCarriage, none)
  else (simpleEscape flavour c).map fun value => (.plain, some value)

/-- One character further: the new state and the character of the value that is now complete. -/
def step (flavour : Flavour) (state : State) (c : Char) : Option (State × Option Char) :=
  match state with
  | .plain => plainStep flavour c
  | .carriage => if c = '\n' then some (.plain, some '\n') else none
  | .escape => escapeStep flavour c
  | .hexHigh =>
    if isHexDigit c && (flavour != .text || hexValue c < 8) then some (.hexLow (hexValue c), none)
    else none
  | .hexLow high =>
    let value := high * 16 + hexValue c
    if isHexDigit c && (flavour != .terminated || value != 0) then
      some (.plain, some (Char.ofNat value))
    else none
  | .pointOpen => if c = '{' then some (.point 0 0, none) else none
  | .point value digits =>
    if isHexDigit c then
      if digits = 6 then none else some (.point (value * 16 + hexValue c) (digits + 1), none)
    else if c = '_' && digits != 0 then some (.point value digits, none)
    else if c = '}' && digits != 0 then
      if value.isValidChar && (flavour != .terminated || value != 0) then
        some (.plain, some (Char.ofNat value))
      else none
    else none
  | .gap =>
    if c = ' ' || c = '\t' || c = '\n' then some (.gap, none)
    else if c = '\r' then some (.gapCarriage, none)
    else plainStep flavour c
  | .gapCarriage => if c = '\n' then some (.gap, none) else none

/-- Whether a double quote ends the text here. -/
def State.mayEnd : State → Bool
  | .plain | .gap => true
  | _ => false

/-- How many characters are left of an escaped text, its closing quote included. -/
def cookedLength (flavour : Flavour) : State → List Char → Option Nat
  | _, [] => none
  | state, c :: rest =>
    if c = '"' && state.mayEnd then some 1
    else
      match step flavour state c with
      | some (next, _) => (cookedLength flavour next rest).map (· + 1)
      | none => none

/-- The value of an escaped text up to its closing quote. -/
def cookedValue (flavour : Flavour) : State → List Char → List Char
  | _, [] => []
  | state, c :: rest =>
    if c = '"' && state.mayEnd then []
    else
      match step flavour state c with
      | some (next, some value) => value :: cookedValue flavour next rest
      | some (next, none) => cookedValue flavour next rest
      | none => []

/-- How many characters an escape has after its backslash. An escaped line end is no character. -/
def escapeLength (flavour : Flavour) : State → List Char → Option Nat
  | _, [] => none
  | state, c :: rest =>
    match step flavour state c with
    | some (.plain, _) => some 1
    | some (.gap, _) | some (.gapCarriage, _) | none => none
    | some (next, _) => (escapeLength flavour next rest).map (· + 1)

/-- How many characters follow the opening apostrophe of a single character, the closing
apostrophe included. -/
def charLength (flavour : Flavour) : List Char → Option Nat
  | [] => none
  | c :: rest =>
    let inner :=
      if c = '\\' then escapeLength flavour .escape rest
      else if flavour = .bytes && !isAscii c then none
      else some 0
    match inner with
    | none => none
    | some n => if (rest.drop n).head? = some '\'' then some (n + 2) else none

/-- Whether a text goes on with so many hash signs. -/
def hashesFollow (hashes : Nat) (cs : List Char) : Bool :=
  (cs.take hashes).length == hashes && (cs.take hashes).all (· == '#')

/-- Whether a character may stand in a text without escapes. -/
def rawAdmits (flavour : Flavour) (c : Char) : Bool :=
  match flavour with
  | .text => true
  | .bytes => isAscii c
  | .terminated => c != '\x00'

/-- How many characters are left of a text without escapes that so many hash signs close. -/
def rawLength (flavour : Flavour) (hashes : Nat) : List Char → Option Nat
  | [] => none
  | c :: rest =>
    if c = '"' && hashesFollow hashes rest then some (hashes + 1)
    else if c = '\r' && rest.head? != some '\n' then none
    else if rawAdmits flavour c then (rawLength flavour hashes rest).map (· + 1)
    else none

/-- How many characters follow the marker of a text without escapes: hash signs, at most 255 of
them, a quote, the text, and the same again. -/
def rawFollow (flavour : Flavour) (cs : List Char) : Option Nat :=
  let hashes := (cs.takeWhile (· == '#')).length
  match cs.drop hashes with
  | '"' :: rest =>
    if hashes ≤ 255 then (rawLength flavour hashes rest).map (· + (hashes + 1)) else none
  | _ => none

/-- The value of a text without escapes, from its hash signs on. -/
def rawValue (cs : List Char) : List Char :=
  let hashes := (cs.takeWhile (· == '#')).length
  let inside := cs.drop (hashes + 1)
  match rawLength .text hashes inside with
  | some n => inside.take (n - (hashes + 1))
  | none => []

/-- How many characters the quoted literal at the head of a text has, without a suffix. -/
def length : List Char → Option Nat
  | '"' :: rest => (cookedLength .text .plain rest).map (· + 1)
  | 'r' :: rest => (rawFollow .text rest).map (· + 1)
  | 'b' :: '"' :: rest => (cookedLength .bytes .plain rest).map (· + 2)
  | 'b' :: 'r' :: rest => (rawFollow .bytes rest).map (· + 2)
  | 'b' :: '\'' :: rest => (charLength .bytes rest).map (· + 2)
  | 'c' :: '"' :: rest => (cookedLength .terminated .plain rest).map (· + 2)
  | 'c' :: 'r' :: rest => (rawFollow .terminated rest).map (· + 2)
  | '\'' :: rest => (charLength .text rest).map (· + 1)
  | _ => none

end Fieldwise.Quoted
