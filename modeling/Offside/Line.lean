import Offside.Comment
import Offside.Text.Blank

/-!
# Lines

A source text is a list of lines, ended by a carriage return, a line feed or both. Every line
is an indentation of spaces and tabs, followed by its content. Lines that are blank or hold
nothing but a comment are skipped: they have no place in the outline.
-/

namespace Offside

/-! ### One line -/

/-- A line of source, with its position counted from zero. -/
structure Line where
  text : Text
  index : Int
  deriving DecidableEq, Repr

namespace Line

/-- Spaces and tabs indent; no other character does. -/
def isIndent (c : Char) : Bool := c == ' ' || c == '\t'

/-- The spaces and tabs in front. -/
def indent (line : Line) : Text := line.text.takeWhile isIndent

/-- What follows the indentation. -/
def content (line : Line) : Text := line.text.dropWhile isIndent

/-- The length of the indentation. A tab counts as one character. -/
def width (line : Line) : Nat := line.indent.length

/-- The line number, counted from one. -/
def number (line : Line) : Int := line.index + 1

/-- Whether the line has no visible character. -/
def isBlank (line : Line) : Bool := line.text.all Text.isBlank

/-- Whether the line has nothing but a comment. -/
def isComment (line : Line) : Bool := (Text.stripLeft line.text).head? == some Comment.marker

/-- Whether the line has no place in the outline. -/
def skipped (line : Line) : Bool := line.isBlank || line.isComment

end Line

/-! ### Line breaks -/

/-- The lines of a text. A line break at the very end does not start another line. Form feeds
and the separators of Unicode are ordinary characters. -/
def splitLines : Text → List Text
  | [] => []
  | '\r' :: '\n' :: s => [] :: splitLines s
  | '\r' :: s => [] :: splitLines s
  | '\n' :: s => [] :: splitLines s
  | c :: s => Text.consFirst c (splitLines s)

/-- Write every line break as a line feed. -/
def normalizeBreaks : Text → Text
  | [] => []
  | '\r' :: '\n' :: s => '\n' :: normalizeBreaks s
  | '\r' :: s => '\n' :: normalizeBreaks s
  | c :: s => c :: normalizeBreaks s

end Offside
