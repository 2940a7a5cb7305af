import Offside.Text.Printable

/-!
# Quoted texts

A quoted text is one line that shows every character of a text. It stands in single quotes,
or in double quotes where that avoids escapes. The quote in use and the backslash are escaped,
tabs and line breaks have short escapes, and all other characters that cannot be shown are
written by their code points in two, four or eight hexadecimal digits.
-/

namespace Offside.Text

/-- The quote around a text: a single quote, unless the text has single quotes and no double
ones. -/
def quoteFor (s : Text) : Char :=
  if s.contains '\'' && !s.contains '"' then '"' else '\''

/-- One character as it stands inside the quote `quote`. -/
def escape (quote c : Char) : Text :=
  if c = quote || c = '\\' then ['\\', c]
  else if c = '\t' then ['\\', 't']
  else if c = '\n' then ['\\', 'n']
  else if c = '\r' then ['\\', 'r']
  else if isPrintable c then [c]
  else if c.toNat < 0x100 then '\\' :: 'x' :: hex 2 c.toNat
  else if c.toNat < 0x10000 then '\\' :: 'u' :: hex 4 c.toNat
  else '\\' :: 'U' :: hex 8 c.toNat

/-- A text in quotes. -/
def quoted (s : Text) : Text :=
  quoteFor s :: (s.flatMap (escape (quoteFor s)) ++ [quoteFor s])

end Offside.Text
