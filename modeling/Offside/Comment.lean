import Offside.Literal

/-!
# Comments

A comment runs from the first semicolon outside the string literals of a line to the end of
the line.
-/

namespace Offside.Comment

/-- The character that starts a comment. -/
def marker : Char := ';'

/-- The offset of the first comment marker outside a string literal. -/
def start? (s : Text) : Option Nat := (Literal.mask s).findIdx? (· == marker)

/-- Drop the comment at the end of a text. -/
def strip (s : Text) : Text :=
  match start? s with
  | some i => s.take i
  | none => s

end Offside.Comment
