import Criteria.Proofs.Refinement

/-!
# Pushing negations down keeps truth values

The dual junction of the negated operands looks at the operands in the same order and is decided by
the same one, so that a negation can be pushed over a junction without a change. Main statements:
pushing negations down leaves alone which records a condition selects, and refines the condition.
-/

namespace Criteria

private theorem Junction.combine?_dual_map_not (j : Junction) (values : List (Option Bool)) :
    j.dual.combine? (values.map (Option.map (!·))) = (j.combine? values).map (!·) := by
  induction values with
  | nil => exact congrArg some j.not_neutral.symm
  | cons value rest ih =>
    rw [List.map_cons]
    rcases j.value_cases value with rfl | rfl | rfl
    · rfl
    · rw [combine?_neutral, ← ih, Option.map_some, not_neutral, combine?_neutral]
    · rw [combine?_absorbing, Option.map_some, not_absorbing, combine?_absorbing]

namespace Cond

variable {κ : Type} [CustomCondition κ] {record : Record}

/-- Pushing a negation over a junction leaves alone where it holds. -/
theorem holds_negated_junction (j : Junction) (operands : List (Cond κ)) :
    (j.dual.make (operands.map Cond.not)).holds record =
      (negation (compound j operands)).holds record := by
  have hmap : (operands.map Cond.not).map (holds record) =
      (operands.map (holds record)).map (!·) := by
    simp [Function.comp_def]
  rw [holds_make, holds_compound, hmap, Junction.join_dual_map_not, holds_negation, holds_compound]

/-- A negated junction is refined by pushing the negation over it. -/
theorem refinedBy_negated_junction (j : Junction) (operands : List (Cond κ)) :
    (negation (compound j operands)).RefinedBy (j.dual.make (operands.map Cond.not)) := by
  intro record truth h
  apply refinedBy_make
  have hmap : (operands.map Cond.not).map (read? record) =
      (operands.map (read? record)).map (Option.map (!·)) := by
    simp [Function.comp_def]
  rw [read?_compound, hmap, Junction.combine?_dual_map_not, ← read?_compound, ← read?_negation]
  exact h

/-- A condition is refined by pushing all its negations down. -/
theorem refinedBy_pushNegations {c d : Cond κ} (h : c.pushNegations = .ok d) : c.RefinedBy d :=
  RefinedBy.rewriting.pushNegations refinedBy_negated_junction h

/-- Pushing negations down keeps the results of every condition that can be built without custom
parts. -/
theorem keepsResults_negation {c : Cond κ} (hreachable : c.Reachable) (hfree : c.CustomFree) :
    Pass.negation.KeepsResults c := by
  obtain ⟨d, hd⟩ := exists_pushNegations hreachable hfree
  have hrun : Pass.negation.run c = .ok (some d) := by
    rw [Pass.run, hd]
    rfl
  exact (refinedBy_pushNegations hd).keepsResults hrun hfree

/-- The results of a negated conjunction of two tests are kept. -/
theorem keepsResults_negation_and : Pass.negation.KeepsResults
    (Cond.not (.and [.test ⟨"a", rfl⟩ .isTrue, .test ⟨"b", rfl⟩ .isNull]) : Cond Empty) := by
  apply keepsResults_negation
  · apply Reachable.not
    apply Reachable.make
    simp only [List.forall_mem_cons]
    exact ⟨.test _ (by decide), .test _ (by decide), List.forall_mem_nil _⟩
  · exact fun _ _ leaf ↦ leaf.elim

end Cond

end Criteria
