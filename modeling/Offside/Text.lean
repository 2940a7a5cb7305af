/-!
# Texts

A text is a list of characters. Lengths, widths and offsets all count characters, so every
number that the library reports is a position in such a list. This file holds the few
operations on texts that several modules share: cutting at a character, and writing numbers.

Every character is a Unicode scalar value. Strings with a surrogate on its own, which some systems
allow and UTF-8 cannot encode, are left out.
-/

namespace Offside

/-- A text, as its characters in order. -/
abbrev Text := List Char

namespace Text

/-! ### Cutting -/

/-- Put a character in front of the first piece. -/
def consFirst (c : Char) : List Text → List Text
  | [] => [[c]]
  | piece :: pieces => (c :: piece) :: pieces

/-- The pieces between the occurrences of `sep`: one more than there are occurrences. -/
def pieces (sep : Char) : Text → List Text
  | [] => [[]]
  | c :: s => if c = sep then [] :: pieces sep s else consFirst c (pieces sep s)

/-- What stands after the last occurrence of `sep`, and the whole text if there is none. -/
def afterLast (sep : Char) (s : Text) : Text :=
  (s.reverse.takeWhile (· != sep)).reverse

/-! ### Order -/

/-- Whether a text comes before another, by the first character in which they differ. -/
def isBefore (s t : Text) : Bool := List.lex s t fun c d => decide (c < d)

/-! ### Numbers -/

/-- A natural number in decimal digits. -/
def ofNat (n : Nat) : Text := Nat.toDigits 10 n

/-- An integer in decimal digits, with a minus sign if it is negative. -/
def ofInt : Int → Text
  | .ofNat n => ofNat n
  | .negSucc n => '-' :: ofNat (n + 1)

/-- Fill up with zeros on the left to at least `width` characters. -/
def zeroPad (width : Nat) (s : Text) : Text :=
  List.replicate (width - s.length) '0' ++ s

/-- The last `width` hexadecimal digits of a natural number, in lower case. -/
def hex : Nat → Nat → Text
  | 0, _ => []
  | width + 1, n => hex width (n / 16) ++ [Nat.digitChar (n % 16)]

end Text

end Offside
