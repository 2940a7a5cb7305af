import Offside.Decimal.Binary
import Offside.Text

/-!
# The shortest decimal of a number

A number of double precision is written with the fewest significant digits that lead back to it
when read, and of those decimals with the nearest one. The reals that are read as the number make
up an interval around it. For one, two and up to seventeen digits the two neighbours of the
number on the grid of such decimals are tried, until one of them is in the interval.
-/

namespace Offside.Binary64

/-- A decimal: its digits as a number, times a power of ten. -/
structure Decimal where
  digits : Nat
  power : Int
  deriving DecidableEq, Repr

/-- The reals that round to a number, in quarters of the unit of its last bit: the ends of the
interval, the number itself between them, and whether the ends belong to the interval. -/
structure Interval where
  low : Nat
  value : Nat
  high : Nat
  closed : Bool
  deriving DecidableEq, Repr

/-- The interval of `significand * 2 ^ exponent`. Below a power of two the next number is only half
a unit away. -/
def interval (significand : Nat) (exponent : Int) : Interval where
  low :=
    if significand = Nat.pow 2 (precision - 1) ∧ minExponent < exponent then 4 * significand - 1
    else 4 * significand - 2
  value := 4 * significand
  high := 4 * significand + 2
  closed := significand % 2 == 0

/-- Whether the fraction `num / den`, in quarters, is in the interval. -/
def Interval.has (i : Interval) (num den : Nat) : Bool :=
  if i.closed then i.low * den ≤ num && num ≤ i.high * den
  else i.low * den < num && num < i.high * den

/-- The place of the first digit of a positive fraction: it is at least this power of ten and
below the next. The search starts at an estimate that is at most one too large. -/
def firstPlace (num den : Nat) : Int :=
  let guess : Int := ((Nat.toDigits 10 num).length : Int) - (Nat.toDigits 10 den).length
  let (n, d) := scale 10 num den (-guess)
  if n < d then guess - 1 else guess

/-- The better of the two neighbours of the number on the grid of `10 ^ power`, if one of them is
in the interval. Of two that are equally near, the even one is taken. -/
def onGrid? (i : Interval) (exponent power : Int) : Option Decimal :=
  let (num, den) := scale 2 i.value 1 exponent
  let (n, d) := scale 10 num (4 * den) (-power)
  let down := n / d
  let up := down + 1
  let inside (k : Nat) : Bool :=
    let (kn, kd) := scale 10 (4 * k) 1 power
    let (kn, kd) := scale 2 kn kd (-exponent)
    i.has kn kd
  let nearest := roundDiv n d
  if inside down && inside up then some ⟨nearest, power⟩
  else if inside down then some ⟨down, power⟩
  else if inside up then some ⟨up, power⟩
  else none

/-- The shortest decimal with a number of digits between `count` and seventeen. The first argument
bounds the number of grids to try. -/
def shortestFrom : Nat → Nat → Interval → Int → Int → Decimal
  | 0, count, i, exponent, place =>
    let power := place + 1 - count
    let (num, den) := scale 2 i.value 1 exponent
    let (n, d) := scale 10 num (4 * den) (-power)
    ⟨roundDiv n d, power⟩
  | fuel + 1, count, i, exponent, place =>
    match onGrid? i exponent (place + 1 - count) with
    | some decimal => decimal
    | none => shortestFrom fuel (count + 1) i exponent place

/-- The shortest decimal of a positive number. -/
def shortest (significand : Nat) (exponent : Int) : Decimal :=
  let (num, den) := scale 2 significand 1 exponent
  shortestFrom 16 1 (interval significand exponent) exponent (firstPlace num den)

/-! ### Writing -/

/-- Drop the zeros at the end. -/
def trimZeros (s : Text) : Text := (s.reverse.dropWhile (· == '0')).reverse

/-- An exponent, with its sign and at least two digits. -/
def exponentText (e : Int) : Text :=
  'e' :: (if e < 0 then '-' else '+') :: Text.zeroPad 2 (Text.ofNat e.natAbs)

/-- Digits of which the first has the given place. From `10 ^ 16` on and below `10 ^ -4` there is
an exponent; a decimal without one always has a point and a digit on either side of it. -/
def place (digits : Text) (first : Int) : Text :=
  if first < -4 ∨ 16 ≤ first then
    match digits with
    | [] => []
    | [d] => d :: exponentText first
    | d :: rest => d :: '.' :: (rest ++ exponentText first)
  else if first < 0 then
    '0' :: '.' :: (List.replicate (-first - 1).toNat '0' ++ digits)
  else
    let whole := (first + 1).toNat
    let padded := digits ++ List.replicate (whole - digits.length) '0'
    let fraction := padded.drop whole
    padded.take whole ++ '.' :: (if fraction.isEmpty then ['0'] else fraction)

/-- The text of a number. -/
def toText : Binary64 → Text
  | .notANumber => "nan".toList
  | .infinite negative => (if negative then ['-'] else []) ++ "inf".toList
  | .finite negative significand exponent =>
    (if negative then ['-'] else [])
      ++ (if significand = 0 then "0.0".toList
        else
          let decimal := shortest significand exponent
          let digits := Text.ofNat decimal.digits
          place (trimZeros digits) (decimal.power + digits.length - 1))

end Offside.Binary64
