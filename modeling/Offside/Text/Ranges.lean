import Offside.Text

/-!
# Character classes given by ranges

A property of characters that comes from a standard is a table of ranges of code points. The
tables themselves are in the modules named for the properties.
-/

namespace Offside.Text

/-- Ranges of code points, each with its first and its last member. -/
abbrev Ranges := List (Nat × Nat)

/-- Whether one of the ranges holds the character. -/
def Ranges.has (ranges : Ranges) (c : Char) : Bool :=
  ranges.any fun r => r.1 ≤ c.toNat && c.toNat ≤ r.2

end Offside.Text
