import Offside.Compilation

/-!
# Diagnostics for an editor

An editor sends the text of a document whenever it opens or changes it, and each time gets the
diagnostics of that text. An editor counts lines and characters from zero.
-/

namespace Offside.Editor

/-- A place in a document, counted from zero. -/
structure Position where
  line : Int
  character : Int
  deriving DecidableEq, Repr

/-- A message about a stretch of a document, from `first` up to `last`, with its severity (one is
an error) and the name of the tool that says so. -/
structure Notice where
  first : Position
  last : Position
  message : Text
  severity : Nat
  origin : Text
  deriving DecidableEq, Repr

/-- All that is to be said about a document, in place of what was said before. -/
structure Publication where
  uri : Text
  notices : List Notice
  deriving DecidableEq, Repr

/-- What the editor tells: it opens a document, or changes all of its text. -/
inductive Event where
  | opened (uri text : Text)
  | changed (uri text : Text)
  deriving DecidableEq, Repr

/-- The name of a document: what follows the last slash of its address. -/
def filename (uri : Text) : Text := Text.afterLast '/' uri

/-- A diagnostic as an editor shows it, on the one character at fault. -/
def notice (d : Diagnostic) : Notice where
  first := ⟨d.line - 1, d.column - 1⟩
  last := ⟨d.line - 1, d.column⟩
  message := d.fault.message
  severity := 1
  origin := "wlisp".toList

/-- Compile a document and say what is wrong with it. -/
def check (uri text : Text) : Publication :=
  ⟨uri, ((Compilation.ofText text (filename uri)).diagnostic?.map notice).toList⟩

/-- The answer to an event. -/
def respond : Event → Publication
  | .opened uri text => check uri text
  | .changed uri text => check uri text

end Offside.Editor
