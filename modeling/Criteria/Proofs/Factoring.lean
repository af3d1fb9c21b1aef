import Criteria.Pass.Sharing
import Criteria.Proofs.Selection

/-!
# Factoring keeps what is selected

A branch that is pulled out stands in front of operands that used to stand in front of it, so that
factoring may change where evaluation fails. Main statement: it does not change which records a
condition selects.
-/

namespace Criteria

variable {κ : Type} [CustomCondition κ] {record : Record}

namespace Cond

private theorem holds_compound_eq_neutral_iff {j : Junction} {operands : List (Cond κ)} :
    (compound j operands).holds record = j.neutral ↔
      ∀ operand ∈ operands, operand.holds record = j.neutral := by
  rw [holds_compound, Junction.join_eq_neutral_iff, List.forall_mem_map]

end Cond

namespace Junction

open Cond

private theorem forall_branches_iff {j : Junction} {operand : Cond κ} :
    (∀ branch ∈ j.branches operand, branch.holds record = j.absorbing) ↔
      operand.holds record = j.absorbing := by
  rcases j.branches_cases operand with ⟨operands, rfl, heq⟩ | heq
  · rw [heq, ← neutral_dual, holds_compound_eq_neutral_iff]
  · rw [heq, List.forall_mem_singleton]

/-- An operand with a shared branch decides a junction exactly if the branch and what is left of the
operand do. -/
theorem holds_iff_of_hasBranch {j : Junction} {common operand : Cond κ}
    (h : j.hasBranch common operand = true) :
    operand.holds record = j.absorbing ↔ common.holds record = j.absorbing ∧
      (j.remainder common operand).holds record = j.absorbing := by
  rw [← forall_branches_iff, remainder, holds_make, ← neutral_dual, holds_compound_eq_neutral_iff]
  have hequal {branch : Cond κ} (hbeq : (branch == common) = true) :
      branch.holds record = common.holds record := by
    rw [beq_def] at hbeq
    exact holds_eq_of_equal hbeq
  constructor
  · intro hall
    obtain ⟨branch, hbranch, hbeq⟩ := List.any_eq_true.mp h
    refine ⟨hequal hbeq ▸ hall branch hbranch, ?_⟩
    intro other hother
    exact hall other (List.mem_filter.mp hother).1
  · rintro ⟨hcommon, hothers⟩ branch hbranch
    by_cases hbeq : (branch == common) = true
    · exact (hequal hbeq).trans hcommon
    · exact hothers branch (List.mem_filter.mpr ⟨hbranch, by simp [hbeq]⟩)

/-- The operand made of those that share a branch decides a junction exactly if one of them does. -/
theorem holds_factored_iff {j : Junction} {common : Cond κ} {operands : List (Cond κ)} :
    (j.factored common operands).holds record = j.absorbing ↔
      ∃ operand ∈ j.sharing common operands, operand.holds record = j.absorbing := by
  have hfactored : (j.factored common operands).holds record = j.absorbing ↔
      common.holds record = j.absorbing ∧ ∃ operand ∈ j.sharing common operands,
        (j.remainder common operand).holds record = j.absorbing := by
    rw [factored, holds_make, ← neutral_dual, holds_compound_eq_neutral_iff, neutral_dual,
      List.forall_mem_cons, List.forall_mem_singleton, holds_make, holds_compound_eq_absorbing_iff]
    apply and_congr_right
    intro _
    constructor
    · rintro ⟨rest, hrest, hholds⟩
      obtain ⟨operand, hmem, rfl⟩ := List.mem_map.mp hrest
      exact ⟨operand, hmem, hholds⟩
    · rintro ⟨operand, hmem, hholds⟩
      exact ⟨_, List.mem_map_of_mem hmem, hholds⟩
  rw [hfactored]
  constructor
  · rintro ⟨hcommon, operand, hmem, hremainder⟩
    have hshares := (List.mem_filter.mp hmem).2
    exact ⟨operand, hmem, (holds_iff_of_hasBranch hshares).mpr ⟨hcommon, hremainder⟩⟩
  · rintro ⟨operand, hmem, hholds⟩
    have hshares := (List.mem_filter.mp hmem).2
    obtain ⟨hcommon, hremainder⟩ := (holds_iff_of_hasBranch hshares).mp hholds
    exact ⟨hcommon, operand, hmem, hremainder⟩

/-- After a branch is pulled out, an operand decides the junction exactly if one did before. -/
theorem exists_pullOut_iff {j : Junction} {common : Cond κ} {operands : List (Cond κ)} :
    (∃ c ∈ j.pullOut common operands, c.holds record = j.absorbing) ↔
      ∃ c ∈ operands, c.holds record = j.absorbing := by
  constructor
  · rintro ⟨c, hc, hholds⟩
    rcases List.mem_cons.mp ((j.pullOut_perm common operands).mem_iff.mp hc) with rfl | hkept
    · obtain ⟨operand, hmem, hoperand⟩ := holds_factored_iff.mp hholds
      exact ⟨operand, (List.mem_filter.mp hmem).1, hoperand⟩
    · exact ⟨c, (List.mem_filter.mp hkept).1, hholds⟩
  · rintro ⟨c, hc, hholds⟩
    by_cases hshares : j.hasBranch common c = true
    · refine ⟨j.factored common operands, ?_, ?_⟩
      · exact (j.pullOut_perm common operands).mem_iff.mpr List.mem_cons_self
      · exact holds_factored_iff.mpr ⟨c, List.mem_filter.mpr ⟨hc, hshares⟩, hholds⟩
    · refine ⟨c, (j.pullOut_perm common operands).mem_iff.mpr ?_, hholds⟩
      exact List.mem_cons_of_mem _ (List.mem_filter.mpr ⟨hc, by simp [hshares]⟩)

end Junction

namespace Cond

/-- Pulling out a shared branch leaves alone where a condition holds. -/
theorem holds_pullOutShared? {c d : Cond κ} (h : c.pullOutShared? = some d) :
    d.holds record = c.holds record := by
  cases c with
  | compound j operands =>
    obtain ⟨common, -, rfl⟩ := Option.map_eq_some_iff.mp h
    rw [holds_make]
    apply Junction.eq_of_absorbing_iff (j := j)
    rw [holds_compound_eq_absorbing_iff, holds_compound_eq_absorbing_iff]
    exact Junction.exists_pullOut_iff
  | fixed truth => cases h
  | test key t => cases h
  | custom leaf => cases h
  | negation operand => cases h

end Cond

end Criteria
