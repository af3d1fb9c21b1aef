import Mathlib.Algebra.Order.Field.Basic
import Mathlib.Algebra.Order.Ring.Rat
import Criteria.Proofs.Congruence
import Criteria.Proofs.Rearrangement

/-!
# The order of values

Values of one kind are ordered, and the order looks past the same as equality: numbers are brought
to one denominator, which leaves nothing of their places and of the sign of a zero. Main statement:
the values of each kind are totally ordered, in such a way that equal values have one place in the
order, and numbers are ordered as the rational numbers that they write.
-/

namespace Criteria

/-! ## Numbers -/

namespace Decimal

private theorem compare_eq_lt_iff {a b : Decimal} : compare a b = .lt ↔ a.toRat < b.toRat := by
  have hpow (d : Decimal) : (0 : ℚ) < 10 ^ d.scale := pow_pos (by norm_num) _
  change compare (a.signed * (Nat.pow 10 b.scale : Int)) _ = .lt ↔ _
  rw [Int.compare_eq_lt, toRat, toRat, div_lt_div_iff₀ (hpow a) (hpow b)]
  norm_cast

/-- Decimals are ordered as their numeric values. -/
theorem compare_eq_compare_toRat (a b : Decimal) : compare a b = compare a.toRat b.toRat := by
  rcases lt_trichotomy a.toRat b.toRat with hlt | heq | hgt
  · rw [compare_eq_lt_iff.mpr hlt, compare_lt_iff_lt.mpr hlt]
  · rw [Std.LawfulBEqOrd.compare_eq_iff_beq.mpr (beq_iff_toRat_eq.mpr heq),
      compare_eq_iff_eq.mpr heq]
  · rw [Std.OrientedCmp.gt_of_lt (compare_eq_lt_iff.mpr hgt), compare_gt_iff_gt.mpr hgt]

private theorem toRat_zero (negative : Bool) (scale : Nat) : toRat ⟨negative, 0, scale⟩ = 0 := by
  simp [toRat, signed]

end Decimal

/-! ## Values of one kind -/

private theorem compare_trans {α : Type} [Ord α] [Std.TransOrd α] {a b c : α} {order : Ordering}
    (hab : compare a b = order) (hbc : compare b c = order) : compare a c = order := by
  cases order with
  | lt => exact Std.TransCmp.lt_trans hab hbc
  | eq => exact Std.TransCmp.eq_trans hab hbc
  | gt => exact Std.TransCmp.gt_trans hab hbc

namespace Value

/-- Values are not ordered exactly if they are of different kinds. -/
theorem compare?_eq_none_iff {v w : Value} : v.compare? w = none ↔ v.kind ≠ w.kind := by
  rw [Ne, ← exists_compare?_iff, not_exists, Option.eq_none_iff_forall_ne_some]

/-- The order of values is transitive. -/
theorem compare?_trans {u v w : Value} {order : Ordering} (huv : u.compare? v = some order)
    (hvw : v.compare? w = some order) : u.compare? w = some order := by
  cases u with
  | boolean a =>
    cases v with
    | boolean b =>
      cases w with
      | boolean c => exact congrArg some (compare_trans (Option.some.inj huv) (Option.some.inj hvw))
      | _ => cases hvw
    | _ => cases huv
  | number a =>
    cases v with
    | number b =>
      cases w with
      | number c => exact congrArg some (compare_trans (Option.some.inj huv) (Option.some.inj hvw))
      | _ => cases hvw
    | _ => cases huv
  | string a =>
    cases v with
    | string b =>
      cases w with
      | string c => exact congrArg some (compare_trans (Option.some.inj huv) (Option.some.inj hvw))
      | _ => cases hvw
    | _ => cases huv

private theorem compare?_number (a b : Decimal) :
    (number a).compare? (number b) = some (compare a.toRat b.toRat) :=
  congrArg some (Decimal.compare_eq_compare_toRat a b)

private theorem number_beq_iff {a b : Decimal} :
    (number a == number b) = true ↔ a.toRat = b.toRat :=
  Decimal.beq_iff_toRat_eq

/-- The values of a kind are totally ordered, and the order agrees with equality. Values have no
order exactly if they are of different kinds, and neither comes first exactly if they are equal; the
other way round the order is swapped; it is transitive; and equal values stand in the same order to
any value. Numbers are ordered as the rational numbers that they write, and are equal exactly if
these are one, so that a zero equals every zero. -/
theorem compare?_totalOrder (u v w : Value) :
    (v.compare? w = none ↔ v.kind ≠ w.kind) ∧
    (v.compare? w = some .eq ↔ (v == w) = true) ∧
    w.compare? v = (v.compare? w).map Ordering.swap ∧
    (∀ order, u.compare? v = some order → v.compare? w = some order →
      u.compare? w = some order) ∧
    ((v == w) = true → v.compare? u = w.compare? u ∧ u.compare? v = u.compare? w) ∧
    (∀ a b : Decimal, (number a).compare? (number b) = some (compare a.toRat b.toRat) ∧
      ((number a == number b) = true ↔ a.toRat = b.toRat)) ∧
    ∀ negative negative' scale scale',
      (number ⟨negative, 0, scale⟩ == number ⟨negative', 0, scale'⟩) = true := by
  refine ⟨compare?_eq_none_iff, compare?_eq_eq_iff, (compare?_swap v w).symm,
    fun order ↦ compare?_trans, fun hequal ↦ ?_, fun a b ↦ ?_, fun _ _ _ _ ↦ ?_⟩
  · exact ⟨compare?_congr_left hequal u, compare?_congr_right hequal u⟩
  · exact ⟨compare?_number a b, number_beq_iff⟩
  · rw [number_beq_iff, Decimal.toRat_zero, Decimal.toRat_zero]

/-- A debt is below a zero that is written with a sign and three places, and this zero is below a
price; the zero without them stands to the price in the same order. A text has no order with the
number that it writes. -/
theorem compare?_totalOrder_spelled : ∃ debt signed zero price : Value,
    debt = number ⟨true, 15, 1⟩ ∧ signed = number ⟨true, 0, 3⟩ ∧ zero = number ⟨false, 0, 0⟩ ∧
      price = number ⟨false, 250, 2⟩ ∧
      debt.compare? signed = some .lt ∧ signed.compare? price = some .lt ∧
      debt.compare? price = some .lt ∧
      (signed == zero) = true ∧ signed.compare? price = zero.compare? price ∧
      signed.compare? zero = some .eq ∧ price.compare? debt = some .gt ∧
      (string "2.50").compare? price = none := by
  have hbelow : (number ⟨true, 15, 1⟩).compare? (number ⟨true, 0, 3⟩) = some .lt := by
    decide +kernel
  have habove : (number ⟨true, 0, 3⟩).compare? (number ⟨false, 250, 2⟩) = some .lt := by
    decide +kernel
  have hzero : (number ⟨true, 0, 3⟩ == number ⟨false, 0, 0⟩) = true :=
    (compare?_totalOrder default default default).2.2.2.2.2.2 _ _ _ _
  have hdebt := (compare?_totalOrder _ _ _).2.2.2.1 .lt hbelow habove
  refine ⟨_, _, _, _, rfl, rfl, rfl, rfl, hbelow, habove, hdebt, hzero, ?_, ?_, ?_, ?_⟩
  · exact ((compare?_totalOrder _ _ _).2.2.2.2.1 hzero).1
  · exact (compare?_totalOrder default _ _).2.1.mpr hzero
  · rw [(compare?_totalOrder default _ _).2.2.1, hdebt]
    rfl
  · exact (compare?_totalOrder default _ _).1.mpr (by decide)

end Value

end Criteria
