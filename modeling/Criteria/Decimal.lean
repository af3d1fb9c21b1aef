/-!
# Decimals

A decimal is a coefficient, a number of places after the point and a sign. Decimals compare by
their numeric value, so that `5`, `5.0` and `5.00` are equal, but each is written with the places
it was given. A zero may carry a sign, which shows in its text and nowhere else.

Order, equality and text follow the documented behaviour of a library of decimals. The library
bounds the coefficient by 96 bits and the places by 28; here both are unbounded, and its decimals
are those within the bounds.
-/

namespace Criteria

/-- The number `coefficient / 10 ^ scale`, negated if the sign says so. -/
structure Decimal where
  /-- Whether the number is below zero, or a zero with a sign. -/
  negative : Bool
  /-- The digits without the point, an integer. -/
  coefficient : Nat
  /-- The number of places after the point. -/
  scale : Nat
deriving Inhabited

namespace Decimal

/-- An integer has no places after the point. -/
def ofInt (n : Int) : Decimal := ⟨decide (n < 0), n.natAbs, 0⟩

/-- The coefficient with the sign applied. -/
def signed (d : Decimal) : Int := if d.negative then -d.coefficient else d.coefficient

/-- Without the sign, the coefficient is left. -/
@[simp] theorem natAbs_signed (d : Decimal) : d.signed.natAbs = d.coefficient := by
  unfold signed
  split
  · rw [Int.natAbs_neg, Int.natAbs_natCast]
  · rw [Int.natAbs_natCast]

/-- The order of the numeric values, both brought to one denominator. -/
instance : Ord Decimal where
  compare a b :=
    compare (a.signed * (Nat.pow 10 b.scale : Int)) (b.signed * (Nat.pow 10 a.scale : Int))

/-- Decimals are equal if their numeric values are. -/
instance : BEq Decimal where
  beq a b := compare a b == .eq

/-- Decimals are equal exactly if they are over one denominator. -/
theorem beq_iff {a b : Decimal} : (a == b) = true ↔
    a.signed * (Nat.pow 10 b.scale : Int) = b.signed * (Nat.pow 10 a.scale : Int) := by
  change (compare (a.signed * (Nat.pow 10 b.scale : Int))
    (b.signed * (Nat.pow 10 a.scale : Int)) == Ordering.eq) = true ↔ _
  rw [beq_iff_eq, Std.compare_eq_iff_eq]

instance : EquivBEq Decimal where
  rfl := beq_iff.mpr rfl
  symm h := beq_iff.mpr (beq_iff.mp h).symm
  trans {a b c} hab hbc := by
    rw [beq_iff] at hab hbc ⊢
    have hpos : (Nat.pow 10 b.scale : Int) ≠ 0 :=
      Int.natCast_ne_zero.mpr (Nat.ne_of_gt (Nat.pow_pos (by decide)))
    apply Int.eq_of_mul_eq_mul_right hpos
    rw [Int.mul_right_comm, hab, Int.mul_right_comm, hbc, Int.mul_right_comm]

instance : Std.LawfulBEqOrd Decimal where
  compare_eq_iff_beq := beq_iff_eq.symm

private theorem isLE_compare_iff {a b : Decimal} : (compare a b).isLE = true ↔
    a.signed * (Nat.pow 10 b.scale : Int) ≤ b.signed * (Nat.pow 10 a.scale : Int) :=
  Int.isLE_compare

instance : Std.TransOrd Decimal where
  eq_swap := (Int.compare_swap ..).symm
  isLE_trans {a b c} hab hbc := by
    rw [isLE_compare_iff] at hab hbc ⊢
    have hpos (d : Decimal) : (0 : Int) < Nat.pow 10 d.scale :=
      Int.natCast_pos.mpr (Nat.pow_pos (by decide))
    apply Int.le_of_mul_le_mul_right _ (hpos b)
    calc a.signed * (Nat.pow 10 c.scale : Int) * (Nat.pow 10 b.scale : Int)
        = a.signed * (Nat.pow 10 b.scale : Int) * (Nat.pow 10 c.scale : Int) :=
          Int.mul_right_comm ..
      _ ≤ b.signed * (Nat.pow 10 a.scale : Int) * (Nat.pow 10 c.scale : Int) :=
          Int.mul_le_mul_of_nonneg_right hab (Int.le_of_lt (hpos c))
      _ = b.signed * (Nat.pow 10 c.scale : Int) * (Nat.pow 10 a.scale : Int) :=
          Int.mul_right_comm ..
      _ ≤ c.signed * (Nat.pow 10 b.scale : Int) * (Nat.pow 10 a.scale : Int) :=
          Int.mul_le_mul_of_nonneg_right hbc (Int.le_of_lt (hpos a))
      _ = c.signed * (Nat.pow 10 a.scale : Int) * (Nat.pow 10 b.scale : Int) :=
          Int.mul_right_comm ..

/-- The digits of the coefficient, with zeros in front so that a digit stands before the point. -/
def digits (d : Decimal) : List Char :=
  let digits := Nat.toDigits 10 d.coefficient
  List.replicate (d.scale + 1 - digits.length) '0' ++ digits

/-- The text of a decimal: sign, whole part, and the places after a point if there are any. -/
def toText (d : Decimal) : String :=
  let whole := d.digits.take (d.digits.length - d.scale)
  let places := d.digits.drop (d.digits.length - d.scale)
  String.ofList ((if d.negative then ['-'] else []) ++ whole ++
    if places.isEmpty then [] else '.' :: places)

/-- The number that a list of digits writes, given what stands before them. -/
def ofDigits (high : Nat) (digits : List Char) : Nat :=
  digits.foldl (fun n c ↦ 10 * n + (c.toNat - '0'.toNat)) high

/-- Reads a sign, digits, and after a point as many places as there are digits. The sign of a
zero is dropped. -/
def ofText? (text : String) : Option Decimal :=
  let (negative, unsigned) :=
    match text.toList with
    | '-' :: rest => (true, rest)
    | rest => (false, rest)
  let whole := unsigned.takeWhile Char.isDigit
  let places? :=
    match unsigned.dropWhile Char.isDigit with
    | [] => some []
    | '.' :: places => if !places.isEmpty && places.all Char.isDigit then some places else none
    | _ => none
  match places? with
  | some places =>
    if whole.isEmpty then none
    else
      let coefficient := ofDigits 0 (whole ++ places)
      some ⟨negative && coefficient != 0, coefficient, places.length⟩
  | none => none

end Decimal

end Criteria
