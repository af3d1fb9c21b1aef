/-!
# Binary floating point numbers

The finite numbers of the 64-bit binary format, as a significand of at most 53 bits and a power of
two. Rounding goes to the nearest number and from the middle to the one with the even
significand. All arithmetic is exact arithmetic followed by one rounding.
-/

namespace Criteria

/-- The number `significand * 2 ^ exponent`, negated if the sign says so. The significand has 53
bits unless the exponent is the least one. -/
structure Binary64 where
  /-- Whether the number is below zero, or a zero with a sign. -/
  negative : Bool
  /-- The significand, an integer. -/
  significand : Nat
  /-- The power of two. -/
  exponent : Int
deriving DecidableEq, Inhabited

namespace Binary64

/-- The least exponent. -/
def minExponent : Int := -1074

/-- The greatest exponent. -/
def maxExponent : Int := 971

/-- The zero of the given sign. -/
def zero (negative : Bool) : Binary64 := ⟨negative, 0, minExponent⟩

/-- A quotient rounded to the nearest integer, and from the middle to the even one. -/
def roundQuotient (numerator denominator : Nat) : Nat :=
  let quotient := numerator / denominator
  let twice := 2 * (numerator % denominator)
  if twice < denominator then quotient
  else if denominator < twice then quotient + 1
  else quotient + quotient % 2

/-- A fraction divided by a power of two, as a fraction. -/
def shift (numerator denominator : Nat) (exponent : Int) : Nat × Nat :=
  (numerator * Nat.pow 2 (-exponent).toNat, denominator * Nat.pow 2 exponent.toNat)

/-- The exponent with which the significand of a positive fraction has 53 bits, or the least
exponent if that is too small. -/
def exponentFor (numerator denominator : Nat) : Int :=
  let estimate : Int := numerator.log2 - denominator.log2 - 52
  let (n, d) := shift numerator denominator estimate
  max (if n / d < Nat.pow 2 52 then estimate - 1 else estimate) minExponent

/-- The number nearest to a fraction, unless it is beyond the greatest one. -/
def round? (negative : Bool) (numerator denominator : Nat) : Option Binary64 :=
  if numerator = 0 then some (zero negative)
  else
    let exponent := exponentFor numerator denominator
    let (n, d) := shift numerator denominator exponent
    let significand := roundQuotient n d
    let (significand, exponent) :=
      if significand = Nat.pow 2 53 then (Nat.pow 2 52, exponent + 1) else (significand, exponent)
    if maxExponent < exponent then none else some ⟨negative, significand, exponent⟩

/-- The absolute value as a fraction. -/
def fraction (x : Binary64) : Nat × Nat :=
  (x.significand * Nat.pow 2 x.exponent.toNat, Nat.pow 2 (-x.exponent).toNat)

/-- The product with a natural number, rounded. -/
def mul? (x : Binary64) (factor : Binary64) : Option Binary64 :=
  let (n, d) := x.fraction
  let (m, e) := factor.fraction
  round? (x.negative != factor.negative) (n * m) (d * e)

/-- The quotient by a number other than zero, rounded. A quotient with a divisor of at least one
is never too great. -/
def div? (x : Binary64) (divisor : Binary64) : Option Binary64 :=
  let (n, d) := x.fraction
  let (m, e) := divisor.fraction
  round? (x.negative != divisor.negative) (n * e) (d * m)

/-- The number nearest to a natural number. -/
def ofNat? (n : Nat) : Option Binary64 := round? false n 1

/-- Divides by a power of ten in steps of at most `10 ^ 308`, rounding after each step. -/
def divPowerOfTen? (x : Binary64) (power : Nat) : Option Binary64 :=
  if power ≤ 308 then do x.div? (← ofNat? (Nat.pow 10 power))
  else if x.significand = 0 then some x
  else do
    let quotient ← x.div? (← ofNat? (Nat.pow 10 308))
    divPowerOfTen? quotient (power - 308)
termination_by power

/-- The number written by a significand and a power of ten: the significand is rounded first, and
then its product with the power or its quotient by it. No number is that great if the power is
beyond the greatest number, unless the significand is zero. -/
def ofScientific? (negative : Bool) (significand : Nat) (power : Int) : Option Binary64 := do
  let x ← round? negative significand 1
  if 0 ≤ power then
    if significand = 0 then some x
    else if power ≤ 308 then x.mul? (← ofNat? (Nat.pow 10 power.toNat))
    else none
  else x.divPowerOfTen? power.natAbs

end Binary64

end Criteria
