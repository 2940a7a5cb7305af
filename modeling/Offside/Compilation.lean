import Offside.Outline.Reader
import Offside.Record

/-!
# Compiling a file

To compile a file is to read its outline and to write the records of the outline, each on lines of
its own. A file with a fault has no records at all.
-/

namespace Offside

/-- What compiling a file gives: the outline and its records, or the first fault. -/
structure Compilation where
  filename : Text
  result : Except Diagnostic Document

namespace Compilation

/-- Compile the lines of a file. -/
def ofLines (lines : List Text) (filename : Text) : Compilation :=
  ⟨filename, Document.read lines filename⟩

/-- Compile the text of a file. -/
def ofText (source : Text) (filename : Text) : Compilation :=
  ofLines (splitLines source) filename

/-- The outline, if there is no fault. -/
def document? (c : Compilation) : Option Document := c.result.toOption

/-- The fault, if there is one. -/
def diagnostic? (c : Compilation) : Option Diagnostic :=
  match c.result with
  | .ok _ => none
  | .error d => some d

/-- The records; none if there is a fault. -/
def records (c : Compilation) : List Text :=
  match c.result with
  | .ok doc => doc.records
  | .error _ => []

/-- The text of the compiled file: every record ends with a line feed. -/
def text (c : Compilation) : Text := c.records.flatMap (· ++ ['\n'])

end Compilation

/-- The records of the lines of a file. -/
def transpile (lines : List Text) (filename : Text) : Except Diagnostic (List Text) :=
  (Document.read lines filename).map Document.records

/-- The compiled text of a source text. -/
def compile (source : Text) (filename : Text) : Except Diagnostic Text :=
  (transpile (splitLines source) filename).map fun records => records.flatMap (· ++ ['\n'])

end Offside
