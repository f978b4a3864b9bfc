import Fieldwise.Text.IdentStart
import Fieldwise.Text.IdentContinue
import Fieldwise.Text.Alphanumeric
import Fieldwise.Text.Combining
import Fieldwise.Text.Hidden

/-!
# Character classes

The classes that decide how a text is cut into words, when two words need a blank between them,
and which characters a quoted text has to escape. Each class answers for ASCII by comparison and
for the rest of Unicode by its table.
-/

namespace Fieldwise.Text

/-- A decimal digit `0` to `9`. -/
def isDigit (c : Char) : Bool := '0' ≤ c && c ≤ '9'

/-- A letter `a` to `z` or `A` to `Z`. -/
def isLetter (c : Char) : Bool := ('a' ≤ c && c ≤ 'z') || ('A' ≤ c && c ≤ 'Z')

/-- A hexadecimal digit of either case. -/
def isHexDigit (c : Char) : Bool := isDigit c || ('a' ≤ c && c ≤ 'f') || ('A' ≤ c && c ≤ 'F')

/-- The value of a hexadecimal digit; zero for any other character. -/
def hexValue (c : Char) : Nat :=
  if isDigit c then c.toNat - '0'.toNat
  else if 'a' ≤ c && c ≤ 'f' then c.toNat - 'a'.toNat + 10
  else if 'A' ≤ c && c ≤ 'F' then c.toNat - 'A'.toNat + 10
  else 0

/-- One of the 128 ASCII characters. -/
def isAscii (c : Char) : Bool := c.toNat < 0x80

/-- The first character of an identifier: a letter of any script or an underscore. -/
def isIdentStart (c : Char) : Bool :=
  if isAscii c then isLetter c || c == '_' else identStartRanges.contains c.toNat

/-- A later character of an identifier. -/
def isIdentContinue (c : Char) : Bool :=
  if isAscii c then isLetter c || isDigit c || c == '_' else identContinueRanges.contains c.toNat

/-- A letter or a number of any script. -/
def isAlphanumeric (c : Char) : Bool :=
  if isAscii c then isLetter c || isDigit c else alphanumericRanges.contains c.toNat

/-- White space of any script. -/
def isWhitespace (c : Char) : Bool :=
  let point := c.toNat
  (0x9 ≤ point && point ≤ 0xD) || point == 0x20 || point == 0x85 || point == 0xA0 ||
    point == 0x1680 || (0x2000 ≤ point && point ≤ 0x200A) || point == 0x2028 ||
    point == 0x2029 || point == 0x202F || point == 0x205F || point == 0x3000

/-- A character that separates tokens: white space or one of the two direction marks. -/
def isBlank (c : Char) : Bool := isWhitespace c || c == '\u200e' || c == '\u200f'

/-- A character with a glyph of its own, so that it can stand unescaped in a quoted text. -/
def isPrintable (c : Char) : Bool :=
  if isAscii c then 0x20 ≤ c.toNat && c.toNat < 0x7F else !hiddenRanges.contains c.toNat

/-- A mark that attaches to the character before it. -/
def isCombining (c : Char) : Bool := combiningRanges.contains c.toNat

/-- A whole identifier: a start character and then continuing ones. -/
def isIdentifier : List Char → Bool
  | [] => false
  | c :: rest => isIdentStart c && rest.all isIdentContinue

end Fieldwise.Text
