import Offside.Text

/-!
# Diagnostics

What can be wrong with a source file, and how it is reported. A diagnostic has the line and the
column of the character at fault, both counted from one. The report shows the line with a caret
below that character.
-/

namespace Offside

/-- The kinds of faults in a source file. -/
inductive Fault where
  | mixedIndentation
  | inconsistentIndentation
  | mismatchedParentheses
  deriving DecidableEq, Repr

/-- The fault in words. -/
def Fault.message : Fault → Text
  | .mixedIndentation => "Mixed use of tabs and spaces".toList
  | .inconsistentIndentation => "Inconsistent indentation".toList
  | .mismatchedParentheses => "Mismatched parentheses".toList

/-- A fault in a file, with the place and the text of the line where it is. -/
structure Diagnostic where
  fault : Fault
  filename : Text
  line : Int
  column : Int
  source : Text
  deriving DecidableEq, Repr

namespace Diagnostic

/-- The diagnostic in one line: file, line number and fault. -/
def summary (d : Diagnostic) : Text :=
  d.filename ++ ':' :: (Text.ofInt d.line ++ ':' :: ' ' :: d.fault.message)

/-- The source line as the report shows it. Line breaks at its end are dropped, and a tab
is one space wide, so that the caret stands where it should. -/
def shownSource (d : Diagnostic) : Text :=
  let unfed := (d.source.reverse.dropWhile (· == '\n')).reverse
  let bare := (unfed.reverse.dropWhile (· == '\r')).reverse
  bare.map fun c => if c = '\t' then ' ' else c

/-- The left margin of the report, where there is no line number. -/
def margin (d : Diagnostic) : Text :=
  List.replicate ((Text.ofInt d.line).length + 1) ' ' ++ ['|']

/-- The lines of the report: the summary, an empty line, the source line behind its number, and
the caret. -/
def reportLines (d : Diagnostic) : List Text :=
  [d.summary,
    d.margin,
    Text.ofInt d.line ++ [' ', '|', ' '] ++ d.shownSource,
    d.margin ++ ' ' :: (List.replicate (d.column - 1).toNat ' ' ++ ['^'])]

/-- The diagnostic with its source line and a caret. -/
def report (d : Diagnostic) : Text := List.intercalate ['\n'] d.reportLines

end Diagnostic

end Offside
