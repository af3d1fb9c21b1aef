import Criteria.Proofs.Canonical
import Criteria.Proofs.Replacement

/-!
# Rebuilding

A condition may be taken apart and built again from what it was made of. Building reduces, but a
condition that was built has nothing left to reduce. Main statement: a transformation without
handlers, the junction of the operands of a junction and the negation of the negation all give back
the condition they started from, down to the order of operands and the spelling of values.
-/

namespace Criteria

variable {κ : Type} [CustomCondition κ]

/-! ## Transformations that change nothing -/

namespace Transformation

/-- The transformation does nothing of its own with a condition: it has no answer for it, or answers
with the condition itself. -/
def Keeps (t : Transformation κ) (c : Cond κ) : Prop :=
  t.action c = .descend ∨ t.action c = .done (.ok (some c))

/-- A condition in normal form is given back by a transformation that keeps all its nodes. -/
theorem apply_eq_self {t : Transformation κ} {c : Cond κ} (hnormal : c.Everywhere Cond.IsNormal)
    (hkeeps : c.Everywhere t.Keeps) : t.apply c = .ok (some c) := by
  induction c using Cond.leafInduction with
  | leaf c hc =>
    rw [apply_eq_applyLeaf hc]
    rcases hkeeps.self with haction | haction
    · rw [applyLeaf, haction]
    · rw [applyLeaf, haction]
  | negation operand ih =>
    have hoperand :=
      ih (Cond.everywhere_negation.mp hnormal).2 (Cond.everywhere_negation.mp hkeeps).2
    rcases hkeeps.self with haction | haction
    · rw [apply, haction]
      dsimp only
      rw [hoperand]
      exact congrArg (Except.ok ∘ some) (Cond.IsNormal.not_eq hnormal.self)
    · rw [apply, haction]
  | compound j operands ih =>
    have hoperands : ∀ operand ∈ operands, t.apply operand = .ok (some operand) :=
      fun operand hmem ↦ ih operand hmem ((Cond.everywhere_compound.mp hnormal).2 operand hmem)
        ((Cond.everywhere_compound.mp hkeeps).2 operand hmem)
    rcases hkeeps.self with haction | haction
    · rw [apply_compound_eq haction hnormal.self.ne_nil hoperands, List.map_id',
        Cond.IsNormal.make_eq hnormal.self]
    · rw [apply, haction]

private theorem keeps_identity (c : Cond κ) : identity.Keeps c :=
  .inl (action_eq_descend_of_forall fun _ _ ↦ rfl)

end Transformation

/-! ## Parts of a condition -/

namespace Cond

/-- A condition in normal form is the negation of its negation. -/
theorem IsNormal.not_not {c : Cond κ} (h : c.IsNormal) : c.not.not = c := by
  cases c with
  | fixed truth => exact congrArg fixed (Bool.not_not truth)
  | negation operand => exact h.not_eq
  | test key t => rfl
  | custom leaf => rfl
  | compound j operands => rfl

/-- A condition that can be built is built again from its parts: by the transformation without
handlers, by joining the operands of a junction in their order, and by negating its negation. -/
theorem Reachable.rebuilt {c : Cond κ} (h : c.Reachable) :
    Transformation.identity.apply c = .ok (some c) ∧
      (∀ j operands, c = .compound j operands → j.make operands = c) ∧ c.not.not = c := by
  have hnormal := h.everywhere_isNormal
  refine ⟨?_, ?_, hnormal.self.not_not⟩
  · exact Transformation.apply_eq_self hnormal fun node _ ↦ Transformation.keeps_identity node
  · rintro j operands rfl
    exact hnormal.self.make_eq

/-- Among the operands of the disjunction are a negated junction with a custom condition, a test of
membership of which one number was given in two spellings, and a conjunction. -/
theorem Reachable.rebuilt_mixed : ∃ given : List (Cond Tagged),
    given = [.not (.and [.custom ⟨"t"⟩, .test ⟨"a", rfl⟩ .isTrue]),
      .memberOf ⟨"n", rfl⟩ [.number ⟨false, 50, 1⟩, .number ⟨false, 5, 0⟩, .string "x"],
      .and [.test ⟨"b", rfl⟩ .isNull, .not (.test ⟨"a", rfl⟩ .isTrue)]] ∧
      Transformation.identity.apply (.or given) = .ok (some (.or given)) ∧
      (∃ kept, Cond.or given = .compound .or kept ∧ Junction.or.make kept = .or given) ∧
      (Cond.or given).not.not = .or given := by
  have hrebuild {given : List (Cond Tagged)} (hgiven : ∀ c ∈ given, c.Reachable)
      (hseveral : 2 ≤ (Junction.or.flatten given).toList.length)
      (hundecided : Junction.or.isDecided (Junction.or.flatten given) = false) :
      Transformation.identity.apply (.or given) = .ok (some (.or given)) ∧
        (∃ kept, Cond.or given = .compound .or kept ∧ Junction.or.make kept = .or given) ∧
        (Cond.or given).not.not = .or given := by
    have hcompound := Junction.make_eq_compound hseveral hundecided
    obtain ⟨hidentity, hmake, hnot⟩ := Reachable.rebuilt (.make .or hgiven)
    exact ⟨hidentity, ⟨_, hcompound, hmake _ _ hcompound⟩, hnot⟩
  have hitem (key : RecordKey) {t : Test} (h : t.kind ≠ .oneOf) :
      (Cond.test key t : Cond Tagged).Reachable := .test key h
  refine ⟨_, rfl, hrebuild ?_ ?_ ?_⟩
  · simp only [List.forall_mem_cons]
    exact ⟨.not (.make_pair .and (.custom _) (hitem _ (by decide))), .memberOf _ _,
      .make_pair .and (hitem _ (by decide)) (.not (hitem _ (by decide))), List.forall_mem_nil _⟩
  · decide +kernel
  · decide +kernel

end Cond

end Criteria
