import Offside.Line

/-!
# The indentation mark of a file

A file indents with spaces or with tabs, not with both. The first indentation character met
becomes the file's mark, and every later one has to be the same.
-/

namespace Offside.Indentation

/-- The mark after an indentation: it is kept once there is one. -/
def settle (mark : Option Char) (indent : Text) : Option Char :=
  match mark with
  | some m => some m
  | none => indent.head?

/-- The offset of the first character of an indentation that is not the file's mark. -/
def foreign? (mark : Option Char) (indent : Text) : Option Nat :=
  match settle mark indent with
  | some m => indent.findIdx? (· != m)
  | none => none

end Offside.Indentation
