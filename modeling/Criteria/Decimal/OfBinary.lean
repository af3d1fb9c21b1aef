import Criteria.Binary64
import Criteria.Decimal

/-!
# Decimals of binary numbers

A binary number becomes a decimal of at most 28 places whose coefficient has about 52 bits. A
whole number keeps its value if that has at most 96 bits, and has no decimal otherwise. A fraction
gives up its power of two one factor at a time, which loses a low bit whenever the coefficient
would outgrow 96 bits; then places are dropped, rounding halves up, until the decimal fits.

The steps follow the documented conversion of a library of decimals. Its bounds on coefficients and
places are steps of the conversion here, since decimals themselves are unbounded.
-/

namespace Criteria.Decimal

/-- The number `coefficient / 10 ^ places`, on its way to a decimal. -/
structure Draft where
  /-- The digits without the point, an integer. -/
  coefficient : Nat
  /-- The number of places after the point, which may still be too great. -/
  places : Nat
deriving DecidableEq, Inhabited

namespace Draft

/-- Coefficients stay below this bound. -/
def coefficientBound : Nat := Nat.pow 2 96

/-- Divides by two as often as told. An even coefficient is halved; an odd one takes a factor
five and one more place, as long as there is room, and loses its last bit otherwise. -/
def halve : Nat → Draft → Draft
  | 0, d => d
  | times + 1, ⟨c, places⟩ =>
    halve times <|
      if c % 2 = 0 then ⟨c / 2, places⟩
      else if 5 * c < coefficientBound then ⟨5 * c, places + 1⟩
      else ⟨c / 2, places⟩

/-- Drops places until at most 28 are left, rounding a half up each time. A coefficient without a
digit left is zero at once. -/
def limitPlaces (c : Nat) : Nat → Draft
  | 0 => ⟨c, 0⟩
  | places + 1 =>
    if places + 1 ≤ 28 then ⟨c, places + 1⟩
    else if c / 10 = 0 then ⟨0, 0⟩
    else limitPlaces (c / 10 + if 5 ≤ c % 10 then 1 else 0) places

/-- Drops places while there are any and the coefficient has more than 52 bits, rounding a half up
each time. -/
def limitBits (c : Nat) : Nat → Draft
  | 0 => ⟨c, 0⟩
  | places + 1 =>
    if c < Nat.pow 2 52 then ⟨c, places + 1⟩
    else limitBits (c / 10 + if 5 ≤ c % 10 then 1 else 0) places

/-- Drops places that hold a zero. -/
def dropZeros (c : Nat) : Nat → Draft
  | 0 => ⟨c, 0⟩
  | places + 1 => if c % 10 = 0 then dropZeros (c / 10) places else ⟨c, places + 1⟩

end Draft

/-- The draft of the absolute value of a binary number. -/
def draft? (x : Binary64) : Option Draft :=
  if 0 ≤ x.exponent then
    let whole := x.significand * Nat.pow 2 x.exponent.toNat
    if whole < Draft.coefficientBound then some ⟨whole, 0⟩ else none
  else some (Draft.halve x.exponent.natAbs ⟨x.significand, 0⟩)

/-- The decimal of a binary number, if it has one. The sign is kept, also that of a zero. -/
def ofBinary? (x : Binary64) : Option Decimal :=
  if x.significand = 0 then some ⟨x.negative, 0, 0⟩
  else do
    let exact ← draft? x
    let placed := Draft.limitPlaces exact.coefficient exact.places
    let short := Draft.limitBits placed.coefficient placed.places
    let final := Draft.dropZeros short.coefficient short.places
    some ⟨x.negative, final.coefficient, final.places⟩

end Criteria.Decimal
