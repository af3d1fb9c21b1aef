import Criteria.Proofs.Membership
import Criteria.Proofs.Refinement

/-!
# Merging keeps truth values

The merged test of a key asks for the values of all its tests at once, in the place of the first of
them. Where the first test of a key can be looked up the others can, so that none is missed by
looking earlier. Main statements: merging leaves alone which records a condition selects, and
refines the condition.
-/

namespace Criteria

variable {κ : Type} [CustomCondition κ] {record : Record}

namespace Junction

private theorem anyAmong_valuesOn_iff {j : Junction} {key : RecordKey} {operands : List (Cond κ)}
    {held : List Value} : Value.anyAmong held (j.valuesOn key operands) = true ↔
      ∃ c ∈ operands, ∃ members, j.mergeable? c = some (key, members) ∧
        Value.anyAmong held members = true := by
  constructor
  · intro h
    obtain ⟨value, hvalue, member, hmember, heq⟩ := Value.anyAmong_iff.mp h
    obtain ⟨c, hc, members, hmergeable, hmem⟩ := mem_valuesOn_iff.mp hmember
    exact ⟨c, hc, members, hmergeable, Value.anyAmong_iff.mpr ⟨value, hvalue, member, hmem, heq⟩⟩
  · rintro ⟨c, hc, members, hmergeable, hamong⟩
    exact Value.anyAmong_mono (subset_valuesOn hc hmergeable) hamong

/-- The merged operands decide the junction exactly if the operands do. -/
theorem exists_mergeOperands_iff {j : Junction} {operands : List (Cond κ)} :
    (∃ c ∈ j.mergeOperands operands, c.holds record = j.absorbing) ↔
      ∃ c ∈ operands, c.holds record = j.absorbing := by
  constructor
  · rintro ⟨c, hc, hholds⟩
    obtain ⟨hkept, -⟩ | ⟨_, -, key, _, -, -, rfl⟩ := mem_mergeFrom_iff.mp hc
    · exact ⟨c, hkept, hholds⟩
    · rw [holds_merged, verdict_eq_absorbing_iff, anyAmong_valuesOn_iff] at hholds
      obtain ⟨d, hd, members, hmergeable, hamong⟩ := hholds
      refine ⟨d, hd, ?_⟩
      rw [holds_of_mergeable? hmergeable, verdict_eq_absorbing_iff]
      exact hamong
  · rintro ⟨c, hc, hholds⟩
    cases hmergeable : j.mergeable? c with
    | none => exact ⟨c, mem_mergeFrom_iff.mpr (.inl ⟨hc, hmergeable⟩), hholds⟩
    | some found =>
      obtain ⟨key, members⟩ := found
      have hmem : j.merged key (j.valuesOn key operands) ∈ j.mergeOperands operands :=
        mem_mergeFrom_iff.mpr (.inr ⟨c, hc, key, members, hmergeable, List.not_mem_nil, rfl⟩)
      refine ⟨_, hmem, ?_⟩
      rw [holds_of_mergeable? hmergeable, verdict_eq_absorbing_iff] at hholds
      rw [holds_merged, verdict_eq_absorbing_iff, anyAmong_valuesOn_iff]
      exact ⟨c, hc, members, hmergeable, hholds⟩

private theorem read?_merged_cases (record : Record) {j : Junction} {c : Cond κ} {key : RecordKey}
    {members others : List Value} (h : j.mergeable? c = some (key, members))
    (hsubset : members ⊆ others) :
    c.read? record = none ∨ (j.merged key others : Cond κ).read? record = some j.absorbing ∨
      (c.read? record = some j.neutral ∧
        (j.merged key others : Cond κ).read? record = some j.neutral) := by
  rw [read?_of_mergeable? h]
  cases hheld : record.values? key with
  | none => exact .inl rfl
  | some held =>
    rw [read?_merged hheld, Option.map_some]
    cases hothers : Value.anyAmong held others with
    | true => exact .inr (.inl rfl)
    | false =>
      have hmembers : Value.anyAmong held members = false := by
        apply Bool.eq_false_iff.mpr
        intro hamong
        rw [Value.anyAmong_mono hsubset hamong] at hothers
        cases hothers
      rw [hmembers]
      exact .inr (.inr ⟨rfl, rfl⟩)

private theorem combine?_mergeOperands_neutral {j : Junction} {operands : List (Cond κ)}
    (h : j.combine? (operands.map (Cond.read? record)) = some j.neutral) :
    j.combine? ((j.mergeOperands operands).map (Cond.read? record)) = some j.neutral := by
  simp only [combine?_eq_neutral_iff, List.forall_mem_map] at h ⊢
  -- For a merged test to decide the junction, it would take an operand that does.
  have hundecided : ¬∃ c ∈ j.mergeOperands operands, c.holds record = j.absorbing := by
    rw [exists_mergeOperands_iff]
    rintro ⟨c, hc, hholds⟩
    rw [Cond.holds_of_read? (h c hc)] at hholds
    exact j.neutral_ne_absorbing hholds
  intro c hc
  obtain ⟨hkept, -⟩ | ⟨operand, hoperand, key, members, hmergeable, -, rfl⟩ :=
    mem_mergeFrom_iff.mp hc
  · exact h c hkept
  · rcases read?_merged_cases record hmergeable (subset_valuesOn hoperand hmergeable) with
      hnone | habsorbing | ⟨-, hmerged⟩
    · rw [h operand hoperand] at hnone
      cases hnone
    · exact absurd ⟨_, hc, Cond.holds_of_read? habsorbing⟩ hundecided
    · exact hmerged

private theorem combine?_mergeFrom_absorbing {j : Junction} {valuesOn : RecordKey → List Value}
    {seen : List RecordKey} {operands : List (Cond κ)}
    (hvalues : ∀ c ∈ operands, ∀ key members, j.mergeable? c = some (key, members) →
      members ⊆ valuesOn key)
    (hseen : ∀ key ∈ seen, (j.merged key (valuesOn key) : Cond κ).read? record = some j.neutral)
    (h : j.combine? (operands.map (Cond.read? record)) = some j.absorbing) :
    j.combine? ((j.mergeFrom valuesOn seen operands).map (Cond.read? record)) =
      some j.absorbing := by
  -- What is dropped later on is as neutral as the merged test of its key, which has been seen.
  induction operands generalizing seen with
  | nil => exact absurd (Option.some.inj h) j.neutral_ne_absorbing
  | cons c rest ih =>
    rw [List.forall_mem_cons] at hvalues
    rw [List.map_cons] at h
    rw [mergeFrom]
    cases hmergeable : j.mergeable? c with
    | none =>
      dsimp only
      rw [List.map_cons]
      rcases j.value_cases (c.read? record) with hnone | hneutral | habsorbing
      · rw [hnone] at h
        cases h
      · rw [hneutral, combine?_neutral] at h ⊢
        exact ih hvalues.2 hseen h
      · rw [habsorbing, combine?_absorbing]
    | some found =>
      obtain ⟨key, members⟩ := found
      dsimp only
      rcases read?_merged_cases record hmergeable (hvalues.1 key members hmergeable) with
        hnone | habsorbing | ⟨hneutral, hmerged⟩
      · rw [hnone] at h
        cases h
      · have hnew : key ∉ seen := by
          intro hmem
          rw [hseen key hmem] at habsorbing
          exact j.neutral_ne_absorbing (Option.some.inj habsorbing)
        rw [if_neg hnew, List.map_cons, habsorbing, combine?_absorbing]
      · rw [hneutral, combine?_neutral] at h
        split
        · exact ih hvalues.2 hseen h
        · rw [List.map_cons, hmerged, combine?_neutral]
          exact ih hvalues.2 (List.forall_mem_cons.mpr ⟨hmerged, hseen⟩) h

end Junction

namespace Cond

/-- Merging the operands of a condition leaves alone where it holds. -/
theorem holds_mergeOperands (c : Cond κ) : c.mergeOperands.holds record = c.holds record := by
  cases c with
  | compound j operands =>
    rw [mergeOperands]
    split
    · rfl
    · rw [holds_make]
      apply Junction.eq_of_absorbing_iff (j := j)
      rw [holds_compound_eq_absorbing_iff, holds_compound_eq_absorbing_iff]
      exact Junction.exists_mergeOperands_iff
  | fixed truth => rfl
  | test key t => rfl
  | custom leaf => rfl
  | negation operand => rfl

/-- A condition is refined by merging its operands. -/
theorem refinedBy_mergeOperands (c : Cond κ) : c.RefinedBy c.mergeOperands := by
  cases c with
  | compound j operands =>
    rw [mergeOperands]
    split
    · exact .refl _
    · apply RefinedBy.trans _ (refinedBy_make j _)
      intro record truth h
      rw [read?_compound] at h ⊢
      rcases j.eq_neutral_or_eq_absorbing truth with rfl | rfl
      · exact Junction.combine?_mergeOperands_neutral h
      · apply Junction.combine?_mergeFrom_absorbing _ (List.forall_mem_nil _) h
        exact fun c hc key members hmergeable ↦ Junction.subset_valuesOn hc hmergeable
  | fixed truth => exact .refl _
  | test key t => exact .refl _
  | custom leaf => exact .refl _
  | negation operand => exact .refl _

/-- A condition is refined by merging all its equalities. -/
theorem refinedBy_merge (c : Cond κ) : c.RefinedBy c.merge :=
  RefinedBy.rewriting.merge refinedBy_mergeOperands c

/-- Merging keeps the results of every condition without custom parts. -/
theorem keepsResults_merging {c : Cond κ} (hfree : c.CustomFree) : Pass.merging.KeepsResults c :=
  (refinedBy_merge c).keepsResults rfl hfree

/-- The results of a disjunction of two tests of one key are kept. -/
theorem keepsResults_merging_or : Pass.merging.KeepsResults
    (.or [.test ⟨"a", rfl⟩ (.equal (.string "x")), .test ⟨"a", rfl⟩ (.equal (.string "y"))] :
      Cond Empty) :=
  keepsResults_merging fun _ _ leaf ↦ leaf.elim

end Cond

end Criteria
