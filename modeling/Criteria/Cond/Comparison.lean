import Criteria.Cond.Digest

/-!
# Comparison of conditions

Conditions may share parts, so that a condition written out can be very much longer than what is
stored of it. Equality is therefore decided with as little descent as possible: two conditions
that are stored in one place are equal, and two of different digests are not. Main statement: the
decision is the equality of `Criteria.Cond.Equality`.
-/

namespace Criteria.Cond

variable {κ : Type} [CustomCondition κ]

/-- Equal conditions carry one digest. -/
theorem standardDigest_eq_of_equal {a b : Cond κ} (h : equal a b = true) :
    a.standardDigest = b.standardDigest := by
  rw [standardDigest_eq_digest, standardDigest_eq_digest, digest_eq_of_equal standardHash h]

/-- The answer to whether two conditions are equal. -/
abbrev EqualityAnswer (a b : Cond κ) : Type := { answer : Bool // answer = equal a b }

/-- Looks for an answer that needs no look at the parts: conditions of different digests
differ, and conditions stored in one place are the same. Otherwise the parts decide. -/
def answerEarly (a b : Cond κ) (parts : Unit → EqualityAnswer a b) : EqualityAnswer a b :=
  ⟨a.standardDigest == b.standardDigest && withPtrEq a b (fun _ ↦ parts ()) fun h ↦ by
      rw [(parts ()).property, h, equal_refl], by
    change (_ && (parts ()).val) = _
    rw [(parts ()).property, Bool.and_eq_right_iff_imp]
    exact fun h ↦ beq_iff_eq.mpr (standardDigest_eq_of_equal h)⟩

mutual

/-- Decides equality part by part, where each part may be answered early. -/
def decideEqual : (a b : Cond κ) → EqualityAnswer a b
  | negation a, negation b =>
    ⟨answerEarly a b fun _ ↦ decideEqual a b, (answerEarly a b fun _ ↦ decideEqual a b).property⟩
  | compound i as, compound j bs =>
    ⟨i == j && decidePairUp as bs, by rw [(decidePairUp as bs).property, equal]⟩
  | a, b => ⟨equal a b, rfl⟩

/-- Decides whether the conditions of two lists can be paired up as equals. -/
def decidePairUp : (as bs : List (Cond κ)) → { answer : Bool // answer = pairUp as bs }
  | [], bs => ⟨bs.isEmpty, rfl⟩
  | a :: as, bs =>
    ⟨match removeFirst? (fun b ↦ answerEarly a b fun _ ↦ decideEqual a b) bs with
      | some rest => decidePairUp as rest
      | none => false, by
    have hfirst : (fun b ↦ (answerEarly a b fun _ ↦ decideEqual a b).val) = equal a :=
      funext fun b ↦ (answerEarly a b fun _ ↦ decideEqual a b).property
    rw [pairUp, hfirst]
    cases removeFirst? (equal a) bs with
    | some rest => exact (decidePairUp as rest).property
    | none => rfl⟩

end

instance : BEq (Cond κ) where
  beq a b := answerEarly a b fun _ ↦ decideEqual a b

/-- Equality on conditions is `equal`. -/
theorem beq_def (a b : Cond κ) : (a == b) = equal a b :=
  (answerEarly a b fun _ ↦ decideEqual a b).property

/-- Only a constant itself equals the constant. -/
@[simp] theorem beq_fixed_iff {c : Cond κ} {truth : Bool} :
    (c == fixed truth) = true ↔ c = fixed truth := by
  rw [beq_def]
  cases c with
  | fixed other => rw [equal, beq_iff_eq, fixed.injEq]
  | test key t => exact iff_of_false nofun nofun
  | custom leaf => exact iff_of_false nofun nofun
  | negation operand => exact iff_of_false nofun nofun
  | compound j operands => exact iff_of_false nofun nofun

instance : ReflBEq (Cond κ) where
  rfl {c} := by rw [beq_def, equal_refl]

instance : Hashable (Cond κ) where
  hash c := c.standardDigest

instance : LawfulHashable (Cond κ) where
  hash_eq a b h := standardDigest_eq_of_equal (beq_def a b ▸ h)

end Criteria.Cond
