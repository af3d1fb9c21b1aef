import Criteria.Decimal

/-!
# Lowest terms

A number has many spellings as a decimal, but only one without a zero in the last place. Its
coefficient and scale are the lowest terms of the number. A library of decimals promises that equal
decimals have one digest, and lowest terms are how that is kept here. Main statement: decimals of
one numeric value have one pair of lowest terms.
-/

namespace Criteria.Decimal

/-- A coefficient and a scale without a zero in the last place, as far as there are places. -/
def lowestTerms (coefficient : Nat) : Nat → Nat × Nat
  | 0 => (coefficient, 0)
  | scale + 1 =>
    if coefficient % 10 = 0 then lowestTerms (coefficient / 10) scale
    else (coefficient, scale + 1)

private theorem lowestTerms_mul_ten (coefficient scale : Nat) :
    lowestTerms (10 * coefficient) (scale + 1) = lowestTerms coefficient scale := by
  rw [lowestTerms, if_pos (Nat.mul_mod_right 10 coefficient),
    Nat.mul_div_cancel_left coefficient (by decide)]

private theorem scale_le_of_value_eq {a b s t : Nat} (ha : a % 10 ≠ 0)
    (h : a * Nat.pow 10 t = b * Nat.pow 10 s) : s ≤ t := by
  refine Nat.le_of_not_lt fun hlt ↦ ha ?_
  obtain ⟨k, rfl⟩ := Nat.exists_eq_add_of_lt hlt
  have hpow : Nat.pow 10 (t + k + 1) = 10 * Nat.pow 10 k * Nat.pow 10 t := by
    change Nat.pow 10 (t + k) * 10 = _
    rw [show Nat.pow 10 (t + k) = Nat.pow 10 t * Nat.pow 10 k from Nat.pow_add 10 t k]
    ac_rfl
  rw [hpow, ← Nat.mul_assoc] at h
  have heq := Nat.eq_of_mul_eq_mul_right (Nat.pow_pos (by decide)) h
  rw [heq, Nat.mul_left_comm, Nat.mul_mod_right]

/-- Coefficients and scales of one value have one pair of lowest terms. -/
theorem lowestTerms_eq {a b s t : Nat} (h : a * Nat.pow 10 t = b * Nat.pow 10 s) :
    lowestTerms a s = lowestTerms b t := by
  have cancel {x y : Nat} (hxy : 10 * x = 10 * y) : x = y := by omega
  by_cases ha : s ≠ 0 ∧ a % 10 = 0
  · obtain ⟨s, rfl⟩ := Nat.exists_eq_succ_of_ne_zero ha.1
    obtain ⟨a, rfl⟩ := Nat.dvd_of_mod_eq_zero ha.2
    rw [lowestTerms_mul_ten]
    apply lowestTerms_eq
    apply cancel
    rw [← Nat.mul_assoc, h]
    change b * (Nat.pow 10 s * 10) = _
    ac_rfl
  by_cases hb : t ≠ 0 ∧ b % 10 = 0
  · obtain ⟨t, rfl⟩ := Nat.exists_eq_succ_of_ne_zero hb.1
    obtain ⟨b, rfl⟩ := Nat.dvd_of_mod_eq_zero hb.2
    rw [lowestTerms_mul_ten]
    apply lowestTerms_eq
    apply cancel
    rw [← Nat.mul_assoc 10 b, ← h]
    change _ = a * (Nat.pow 10 t * 10)
    ac_rfl
  have hscale : s = t := by
    rcases Nat.lt_trichotomy s t with hlt | heq | hlt
    · exact absurd (scale_le_of_value_eq (fun hz ↦ hb ⟨by omega, hz⟩) h.symm) (by omega)
    · exact heq
    · exact absurd (scale_le_of_value_eq (fun hz ↦ ha ⟨by omega, hz⟩) h) (by omega)
  subst hscale
  rw [Nat.eq_of_mul_eq_mul_right (Nat.pow_pos (by decide)) h]
termination_by s + t

end Criteria.Decimal
