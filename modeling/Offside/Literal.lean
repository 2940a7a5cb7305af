import Offside.Text

/-!
# String literals

A string literal stands between two double quotes on one physical line. Inside it, a backslash
before a backslash or a quote makes a pair with it. A quote opens a literal only if a quote that
can close it follows before the next line feed, and the literal closes at the first quote that
is not the second half of a pair. If all of them are, it closes at the last one: the backslash
before that quote then stands for itself.

Masking writes a placeholder over every character of a literal. It keeps the length of the
text, so that a position in the mask is the same position in the text, and what is left of
quotes, semicolons, spaces and parentheses is not part of any literal.
-/

namespace Offside.Literal

/-- The length of what remains of a literal after its opening quote, closing quote included.
There is no literal if no quote follows on the line. -/
def closing? : Text → Option Nat
  | [] => none
  | '"' :: _ => some 1
  | '\n' :: _ => none
  | '\\' :: '\\' :: s => (closing? s).map (· + 2)
  | '\\' :: '"' :: s => some (((closing? s).getD 0) + 2)
  | _ :: s => (closing? s).map (· + 1)

/-- The character that stands for a character of a literal. -/
def placeholder : Char := 's'

/-- Mask a text of which the first `n` characters belong to a literal already opened. -/
def maskFrom : Nat → Text → Text
  | _, [] => []
  | n + 1, _ :: s => placeholder :: maskFrom n s
  | 0, c :: s =>
    if c = '"' then
      match closing? s with
      | some n => placeholder :: maskFrom n s
      | none => c :: maskFrom 0 s
    else c :: maskFrom 0 s

/-- Write the placeholder over every string literal. -/
def mask (s : Text) : Text := maskFrom 0 s

end Offside.Literal
