import Criteria.Binary64

/-!
# Shortest decimal digits of a binary number

The decimal with the fewest digits that is nearer to a given binary number than to any other, and
of those with so few digits the nearest one. Everything is decided by comparing integers.
-/

namespace Criteria

/-- The decimal number `digits * 10 ^ exponent`. -/
structure Scientific where
  /-- The significant digits, an integer. -/
  digits : Nat
  /-- The power of ten. -/
  exponent : Int
deriving DecidableEq, Inhabited

/-- The digits without the zeros at the end, as far as fuel allows. -/
def Scientific.trim : Nat → Scientific → Scientific
  | 0, d => d
  | fuel + 1, d =>
    if d.digits ≠ 0 ∧ d.digits % 10 = 0 then trim fuel ⟨d.digits / 10, d.exponent + 1⟩ else d

namespace Binary64

/-- Compares `digits * 10 ^ exponent` with `bits * 2 ^ power`. -/
def compareToPowerOfTwo (d : Scientific) (bits : Nat) (power : Int) : Ordering :=
  compare (d.digits * Nat.pow 10 d.exponent.toNat * Nat.pow 2 (-power).toNat)
    (bits * Nat.pow 2 power.toNat * Nat.pow 10 (-d.exponent).toNat)

/-- Whether a decimal lies among the reals that round to the absolute value of a number. The ends
belong to them if the significand is even. Below a power of two the numbers lie twice as dense. -/
def readsBack (x : Binary64) (d : Scientific) : Bool :=
  let power := x.exponent - 2
  let below := if x.significand = Nat.pow 2 52 ∧ minExponent < x.exponent then 1 else 2
  let low := compareToPowerOfTwo d (4 * x.significand - below) power
  let high := compareToPowerOfTwo d (4 * x.significand + 2) power
  if x.significand % 2 = 0 then low.isGE && high.isLE else low.isGT && high.isLT

/-- The exponent of the leading decimal digit of the absolute value, for numbers except zero. -/
def leadingExponent (x : Binary64) : Int :=
  let (n, d) := x.fraction
  if d ≤ n then (Nat.toDigits 10 (n / d)).length - 1
  else -(Nat.toDigits 10 ((d + n - 1) / n - 1)).length

/-- The multiple of a power of ten that reads back and is nearest to the absolute value, if one of
the two multiples next to it reads back. From the middle it goes to the even one. -/
def nearestMultiple? (x : Binary64) (exponent : Int) : Option Scientific :=
  let (n, d) := x.fraction
  let n := n * Nat.pow 10 (-exponent).toNat
  let d := d * Nat.pow 10 exponent.toNat
  let low : Scientific := ⟨n / d, exponent⟩
  let high : Scientific := ⟨n / d + 1, exponent⟩
  match x.readsBack low, x.readsBack high with
  | true, true => some ⟨roundQuotient n d, exponent⟩
  | true, false => some low
  | false, true => some high
  | false, false => none

/-- The shortest decimal of the absolute value of a number other than zero. Seventeen digits are
enough for every number. -/
def shortest (x : Binary64) : Scientific :=
  let leading := x.leadingExponent
  let found := (List.range 17).findSome? fun (more : Nat) ↦ x.nearestMultiple? (leading - more)
  Scientific.trim 20 (found.getD ⟨0, 0⟩)

/-- Which numbers are written without an exponent: those whose leading digit has an exponent from
the first bound up to, but not including, the second. -/
structure Plain where
  /-- The least exponent of the leading digit. -/
  least : Int
  /-- The first exponent that is too great. -/
  bound : Int

/-- The text of a number. Without an exponent a whole number ends in `.0`; with one, the point
stands after the first digit if more digits follow, and the sign of the exponent is written. -/
def toText (plain : Plain) (x : Binary64) : String :=
  let sign := if x.negative then ['-'] else []
  if x.significand = 0 then String.ofList (sign ++ ['0', '.', '0'])
  else
    let d := x.shortest
    let digits := Nat.toDigits 10 d.digits
    let leading := d.exponent + digits.length - 1
    let body :=
      if plain.least ≤ leading ∧ leading < plain.bound then
        if leading < 0 then '0' :: '.' :: List.replicate (-leading - 1).toNat '0' ++ digits
        else if 0 ≤ d.exponent then
          digits ++ List.replicate d.exponent.toNat '0' ++ ['.', '0']
        else digits.take (leading.toNat + 1) ++ '.' :: digits.drop (leading.toNat + 1)
      else
        digits.take 1 ++ (if digits.length = 1 then [] else '.' :: digits.drop 1) ++
          'e' :: (if leading < 0 then '-' else '+') :: Nat.toDigits 10 leading.natAbs
    String.ofList (sign ++ body)

end Binary64

end Criteria
