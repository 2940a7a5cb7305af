/-!
# Binary numbers of double precision

A number of double precision is a significand below `2 ^ 53` times a power of two, with a sign,
or it is infinite or not a number. This file takes a decimal to the nearest such number. Of two
that are equally near, the one with the even significand is taken. All arithmetic is in natural
numbers.
-/

namespace Offside

/-- A number of double precision. A finite one is `significand * 2 ^ exponent`, and the exponent
is as small as the range and the precision allow. -/
inductive Binary64 where
  | finite (negative : Bool) (significand : Nat) (exponent : Int)
  | infinite (negative : Bool)
  | notANumber
  deriving DecidableEq, Repr

namespace Binary64

/-- The least exponent. -/
def minExponent : Int := -1074

/-- The greatest exponent. -/
def maxExponent : Int := 971

/-- The number of bits of a significand. -/
def precision : Nat := 53

/-- The quotient of two natural numbers, rounded to the nearest; a half goes to the even
neighbour. -/
def roundDiv (num den : Nat) : Nat :=
  let q := num / den
  let r := num % den
  if 2 * r < den then q
  else if den < 2 * r then q + 1
  else if q % 2 = 0 then q else q + 1

/-- A fraction times a power of a base, as a fraction again. -/
def scale (base : Nat) (num den : Nat) (power : Int) : Nat × Nat :=
  match power with
  | .ofNat k => (num * Nat.pow base k, den)
  | .negSucc k => (num, den * Nat.pow base (k + 1))

/-- The power of two that a positive fraction reaches: it is at least this power and below the
next. -/
def magnitude (num den : Nat) : Int :=
  let guess : Int := (Nat.log2 num : Int) - Nat.log2 den
  let (n, d) := scale 2 num den (-guess)
  if n < d then guess - 1 else guess

/-- The double nearest to a positive fraction. -/
def ofFraction (negative : Bool) (num den : Nat) : Binary64 :=
  let exponent := max (magnitude num den - (precision - 1)) minExponent
  let (n, d) := scale 2 num den (-exponent)
  let significand := roundDiv n d
  let (significand, exponent) :=
    if significand = Nat.pow 2 precision then (Nat.pow 2 (precision - 1), exponent + 1)
    else (significand, exponent)
  if maxExponent < exponent then .infinite negative else .finite negative significand exponent

/-- The double nearest to `digits * 10 ^ power`. Decimals that are far outside the range are
recognised by the place of their first digit, without computing the power. -/
def ofDecimal (negative : Bool) (digits : Nat) (power : Int) : Binary64 :=
  let place : Int := (Nat.toDigits 10 digits).length + power
  if digits = 0 ∨ place < -330 then .finite negative 0 minExponent
  else if 310 < place then .infinite negative
  else
    let (num, den) := scale 10 digits 1 power
    ofFraction negative num den

/-- Whether the number is zero. -/
def isZero : Binary64 → Bool
  | .finite _ significand _ => significand == 0
  | _ => false

end Binary64

end Offside
