import Criteria.Digest

/-!
# Equal things have the same tokens

Neither the spelling of a number nor the order of a set shows in the tokens, and so in a digest.
-/

namespace Criteria

/-- The order of digests does not show in the tokens of a collection. -/
theorem unorderedTokens_perm {digests others : List UInt64} (h : digests.Perm others) :
    unorderedTokens digests = unorderedTokens others := by
  have hsum := h.foldl_eq' (f := (· + ·)) (fun a _ b _ sum ↦ by
    rw [UInt64.add_assoc, UInt64.add_comm a, ← UInt64.add_assoc]) 0
  rw [unorderedTokens, unorderedTokens, h.length_eq, hsum]

namespace Decimal

private theorem coefficient_eq_zero {a b : Decimal} (ha : a.negative = true)
    (hb : b.negative = false) (h : (a == b) = true) : a.coefficient = 0 ∧ b.coefficient = 0 := by
  have pow_ne_zero (scale : Nat) : Nat.pow 10 scale ≠ 0 :=
    Nat.ne_of_gt (Nat.pow_pos (by decide))
  rw [beq_iff, signed, signed, if_pos ha, if_neg (by rw [hb]; decide), Int.neg_mul] at h
  have hsum : a.coefficient * Nat.pow 10 b.scale + b.coefficient * Nat.pow 10 a.scale = 0 := by
    omega
  rw [Nat.add_eq_zero_iff, Nat.mul_eq_zero, Nat.mul_eq_zero] at hsum
  exact ⟨hsum.1.resolve_right (pow_ne_zero _), hsum.2.resolve_right (pow_ne_zero _)⟩

private theorem lowestTerms_zero (scale : Nat) : lowestTerms 0 scale = (0, 0) :=
  lowestTerms_eq (t := 0) (by rw [Nat.zero_mul, Nat.zero_mul])

private theorem tokens_zero {d : Decimal} (h : d.coefficient = 0) :
    d.tokens = [.integer 0, .count 0] := by
  rw [tokens, h, lowestTerms_zero]
  simp

/-- Equal numbers have the same tokens. -/
theorem tokens_eq {a b : Decimal} (h : (a == b) = true) : a.tokens = b.tokens := by
  have hvalue := congrArg Int.natAbs (beq_iff.mp h)
  rw [Int.natAbs_mul, Int.natAbs_mul, natAbs_signed, natAbs_signed, Int.natAbs_natCast,
    Int.natAbs_natCast] at hvalue
  cases ha : a.negative with
  | true =>
    cases hb : b.negative with
    | true => rw [tokens, tokens, lowestTerms_eq hvalue, ha, hb]
    | false =>
      obtain ⟨hza, hzb⟩ := coefficient_eq_zero ha hb h
      rw [tokens_zero hza, tokens_zero hzb]
  | false =>
    cases hb : b.negative with
    | true =>
      obtain ⟨hzb, hza⟩ := coefficient_eq_zero hb ha (BEq.symm h)
      rw [tokens_zero hza, tokens_zero hzb]
    | false => rw [tokens, tokens, lowestTerms_eq hvalue, ha, hb]

end Decimal

namespace Value

/-- Equal values have the same tokens. -/
theorem tokens_eq {v w : Value} (h : (v == w) = true) : v.tokens = w.tokens := by
  cases v with
  | boolean a =>
    cases w with
    | boolean b => exact congrArg (fun truth ↦ (boolean truth).tokens) (beq_iff_eq.mp h)
    | _ => exact absurd h Bool.false_ne_true
  | number a =>
    cases w with
    | number b => exact congrArg (.label "number" :: ·) (Decimal.tokens_eq h)
    | _ => exact absurd h Bool.false_ne_true
  | string a =>
    cases w with
    | string b => exact congrArg (fun text ↦ (string text).tokens) (beq_iff_eq.mp h)
    | _ => exact absurd h Bool.false_ne_true

private theorem setTokens_eq (hash : HashFunction) {s t : OrderedSet Value} (h : (s == t) = true) :
    setTokens hash s = setTokens hash t :=
  unorderedTokens_perm (OrderedSet.map_perm_of_beq (fun heq ↦ congrArg hash (tokens_eq heq)) h)

end Value

namespace Test

/-- Equal tests are of one kind and have the same tokens. -/
theorem tokens_eq (hash : HashFunction) {t u : Test} (h : (t == u) = true) :
    t.kind = u.kind ∧ t.tokens hash = u.tokens hash := by
  refine beq_cases ?_ ?_ ?_ ?_ ?_ ?_ ?_ h
  · exact fun hvalue ↦ ⟨rfl, Value.tokens_eq hvalue⟩
  · exact fun _ _ _ hvalue ↦ ⟨rfl, Value.tokens_eq hvalue⟩
  · exact fun hset ↦ ⟨rfl, Value.setTokens_eq hash hset⟩
  · intro low low' high high' hlow hhigh
    refine ⟨rfl, ?_⟩
    rw [tokens, tokens, Value.tokens_eq hlow, Value.tokens_eq hhigh]
  · exact fun _ ↦ ⟨rfl, rfl⟩
  · exact ⟨rfl, rfl⟩
  · exact ⟨rfl, rfl⟩

end Test

end Criteria
