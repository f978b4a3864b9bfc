import Fieldwise.Toml
import Fieldwise.Toml.Quoted

/-!
# Numbers and moments in configuration files

Whole numbers have to fit in 64 bits with a sign, and a positive fraction must not be so large that it rounds
to infinity. Underscores may stand between digits. A moment is a date, a time of day, or both with or without an
offset; days have to exist in their month, and a minute may have a leap second.
-/

namespace Fieldwise.Toml.Reader

/-- A decimal digit. -/
def isDigit (c : Char) : Bool := '0' ≤ c && c ≤ '9'

/-- Digits that fit, with single underscores between them. -/
def digits (fits : Char → Bool) : Reader (List Char) := do
  let first ← satisfying fits
  let others ← many (satisfying fits <|> (char '_' *> satisfying fits))
  return first :: others

/-- The sign of a number. -/
def sign : Reader (List Char) := do
  match ← perhaps (satisfying fun c => c == '+' || c == '-') with
  | some c => return [c]
  | none => return []

/-- Decimal digits without a leading zero. -/
def wholeDigits : Reader (List Char) := do
  match ← ahead 1 with
  | ['0'] => List.singleton <$> satisfying isDigit
  | _ => digits isDigit

/-- The value of digits in a base. -/
def valueOf (base : Nat) (ds : List Char) : Nat :=
  ds.foldl (fun value c => base * value + (hexDigit? c).getD 0) 0

/-- The largest whole number. -/
def maxInteger : Int := 0x7FFFFFFFFFFFFFFF

/-- The smallest whole number. -/
def minInteger : Int := -0x8000000000000000

/-- A whole number that is not too large. -/
def bounded (value : Int) : Reader Toml :=
  if minInteger ≤ value ∧ value ≤ maxInteger then pure (.integer value) else fail

/-- A whole number in a base with a mark in front of its digits. -/
def marked (mark : String) (base : Nat) : Reader Toml := do
  literal mark
  let ds ← digits fun c => (hexDigit? c).any (· < base)
  bounded (valueOf base ds)

/-- A whole number. -/
def integer : Reader Toml := do
  match ← ahead 2 with
  | ['0', 'x'] => marked "0x" 16
  | ['0', 'o'] => marked "0o" 8
  | ['0', 'b'] => marked "0b" 2
  | _ =>
    let front ← sign
    let ds ← wholeDigits
    let value : Int := valueOf 10 ds
    bounded (if front = ['-'] then -value else value)

/-- The parts of a fraction as it is written. -/
structure Decimal where
  /-- The sign. -/
  sign : List Char
  /-- The digits before the point. -/
  whole : List Char
  /-- The digits behind the point. -/
  part : List Char
  /-- The sign of the exponent. -/
  powerSign : List Char
  /-- The digits of the exponent. -/
  power : List Char
  deriving Inhabited

namespace Decimal

/-- Half a step above the largest number that a double can hold: from here on a number rounds to infinity. -/
def overflow : Nat := Nat.pow 2 1024 - Nat.pow 2 970

/-- How many digits `overflow` has. -/
def overflowDigits : Int := 309

/-- Whether a number without its sign rounds to infinity. The exponent alone decides, unless the number has as
many digits as the limit. -/
def isHuge (number : Decimal) : Bool :=
  let all := number.whole ++ number.part
  let significant := all.dropWhile (· == '0')
  let exponent : Int := valueOf 10 number.power
  let exponent := if number.powerSign = ['-'] then -exponent else exponent
  let place : Int := (number.whole.length : Int) - (all.length - significant.length : Nat) + exponent
  if significant.isEmpty then false
  else if place < overflowDigits then false
  else if overflowDigits < place then true
  else
    let value := valueOf 10 significant
    overflow * Nat.pow 10 significant.length ≤ value * Nat.pow 10 overflowDigits.toNat

end Decimal

/-- An exponent: its sign and its digits. -/
def exponent : Reader (List Char × List Char) := do
  let _ ← satisfying fun c => c == 'e' || c == 'E'
  let front ← sign
  let ds ← digits isDigit
  return (front, ds)

/-- The digits behind a point. -/
def decimals : Reader (List Char) := char '.' *> digits isDigit

/-- A fraction in digits: with decimals, with an exponent, or with both. -/
def decimal : Reader Decimal := do
  let front ← sign
  let whole ← wholeDigits
  match ← perhaps decimals with
  | some part =>
    match ← perhaps exponent with
    | some (powerSign, power) => return ⟨front, whole, part, powerSign, power⟩
    | none => return ⟨front, whole, part, [], []⟩
  | none =>
    let (powerSign, power) ← exponent
    return ⟨front, whole, [], powerSign, power⟩

/-- The text that a reader takes. -/
def written {α : Type} (reader : Reader α) : Reader (α × String) := fun cs =>
  match reader cs with
  | some (found, rest) => some ((found, String.ofList (cs.take (cs.length - rest.length))), rest)
  | none => none

/-- A fraction, infinity, or no number. -/
def fraction : Reader Toml :=
  (do
    let (number, source) ← written decimal
    if number.sign ≠ ['-'] && number.isHuge then fail else return .fraction source) <|>
  (do
    let (_, source) ← written (sign *> (literal "inf" <|> literal "nan"))
    return .fraction source)

/-- A number of so many digits inside bounds. -/
def numberIn (count low high : Nat) : Reader Nat := do
  let ds ← ahead count
  let value := valueOf 10 ds
  if ds.length = count ∧ ds.all isDigit ∧ low ≤ value ∧ value ≤ high then
    modify (List.drop count)
    return value
  else fail

/-- Whether a year has a leap day. -/
def isLeap (year : Nat) : Bool := year % 4 == 0 && (year % 100 != 0 || year % 400 == 0)

/-- How many days a month has. -/
def daysIn (year month : Nat) : Nat :=
  if month == 2 then if isLeap year then 29 else 28
  else if month == 4 || month == 6 || month == 9 || month == 11 then 30
  else 31

/-- A date. -/
def date : Reader Unit := do
  let year ← numberIn 4 0 9999
  char '-'
  let month ← numberIn 2 1 12
  char '-'
  let _ ← numberIn 2 1 (daysIn year month)

/-- A time of day. -/
def timeOfDay : Reader Unit := do
  let _ ← numberIn 2 0 23
  char ':'
  let _ ← numberIn 2 0 59
  char ':'
  let _ ← numberIn 2 0 60
  let _ ← perhaps (do
    char '.'
    let _ ← satisfying isDigit
    let _ ← run isDigit)

/-- An offset from universal time. -/
def offset : Reader Unit :=
  (do let _ ← satisfying fun c => c == 'Z' || c == 'z') <|>
  (do
    let _ ← satisfying fun c => c == '+' || c == '-'
    let _ ← numberIn 2 0 23
    char ':'
    let _ ← numberIn 2 0 59)

/-- A moment. -/
def moment : Reader Toml := do
  let (_, source) ← written
    ((do
      date
      let _ ← perhaps (do
        let _ ← satisfying fun c => c == 'T' || c == 't' || c == ' '
        timeOfDay
        perhaps offset)) <|> timeOfDay)
  return .moment source

/-- A truth value. -/
def boolean : Reader Toml :=
  (literal "true" *> pure (.boolean true)) <|> (literal "false" *> pure (.boolean false))

/-- A value without parts. -/
def scalar : Reader Toml :=
  (Toml.text <$> quoted) <|> moment <|> fraction <|> integer <|> boolean

end Fieldwise.Toml.Reader
