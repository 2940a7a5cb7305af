import Offside.Text.Ranges

/-!
# Blank characters

The characters that count as whitespace when a line is trimmed or found empty: the spaces and
separators of Unicode with the control characters that act as such. Zero-width characters are
not among them. Indentation and the separation of tokens use smaller classes of their own.
-/

namespace Offside.Text

/-- The ranges of blank characters. -/
def blankRanges : Ranges :=
  [(0x09, 0x0D), (0x1C, 0x20), (0x85, 0x85), (0xA0, 0xA0), (0x1680, 0x1680), (0x2000, 0x200A),
    (0x2028, 0x2029), (0x202F, 0x202F), (0x205F, 0x205F), (0x3000, 0x3000)]

/-- Whether the character is whitespace. -/
def isBlank (c : Char) : Bool := blankRanges.has c

/-- Drop the blank characters at the front. -/
def stripLeft (s : Text) : Text := s.dropWhile isBlank

/-- Drop the blank characters at the end. -/
def stripRight (s : Text) : Text := (s.reverse.dropWhile isBlank).reverse

/-- Drop the blank characters at both ends. -/
def strip (s : Text) : Text := stripRight (stripLeft s)

end Offside.Text
