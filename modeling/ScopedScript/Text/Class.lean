import ScopedScript.Text.Letters
import ScopedScript.Text.Numerals
import ScopedScript.Text.Hidden
import ScopedScript.Text.Extenders

/-!
# Character classes

The classes a script and its diagnostics depend on. Each class answers for ASCII directly and
consults a table of ranges for every other character.
-/

namespace ScopedScript.Text

/-- A letter of any script: the Unicode category `L`. -/
def isLetter (c : Char) : Bool :=
  if c.toNat < 0x80 then c.isAlpha else letterRanges.covers c

/-- A numeral of any script: the Unicode category `N`. -/
def isNumeral (c : Char) : Bool :=
  if c.toNat < 0x80 then c.isDigit else numeralRanges.covers c

/-- A name starts with a letter or an underscore. -/
def isNameStart (c : Char) : Bool :=
  isLetter c || c == '_'

/-- A name goes on with letters, numerals and underscores. -/
def isNamePart (c : Char) : Bool :=
  isLetter c || isNumeral c || c == '_'

/-- The blanks between tokens: space, tab, carriage return, form feed and line feed. -/
def isGap (c : Char) : Bool :=
  c == ' ' || c == '\t' || c == '\r' || c == '\x0c' || c == '\n'

/-- White space as Unicode's property `White_Space` has it. -/
def isWhite (c : Char) : Bool :=
  let n := c.toNat
  (0x9 ≤ n && n ≤ 0xD) || n == 0x20 || n == 0x85 || n == 0xA0 || n == 0x1680 ||
    (0x2000 ≤ n && n ≤ 0x200A) || n == 0x2028 || n == 0x2029 || n == 0x202F || n == 0x205F ||
    n == 0x3000

/-- A character that can be seen on its own: no control, no format character, no separator other
than the space, no filler, and nothing that is drawn together with the character before it. -/
def isPlain (c : Char) : Bool :=
  if c.toNat < 0x80 then 0x20 ≤ c.toNat && c.toNat < 0x7F
  else !(hiddenRanges.covers c) && !(extenderRanges.covers c)

/-- The text without the white space around it. -/
def trim (cs : List Char) : List Char :=
  ((cs.dropWhile isWhite).reverse.dropWhile isWhite).reverse

theorem isNamePart_of_isNameStart {c : Char} (h : isNameStart c = true) :
    isNamePart c = true := by
  simp only [isNameStart, isNamePart, Bool.or_eq_true] at *
  exact h.imp .inl id

end ScopedScript.Text
