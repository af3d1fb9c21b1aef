import Criteria.Proofs.Reading

/-!
# Refinement

A condition is refined by one that has every truth value it has itself, and that may have one on
records where it has none. Building a junction drops operands that repeat others. What is dropped
can only have failed in more cases: it never decided anything that the operand before it did not
decide. Main statements: the compound of some operands is refined by the junction built from them,
and refinement is kept when parts are rewritten.
-/

namespace Criteria

namespace Junction

private theorem combine?_cons_congr {j : Junction} {others rest : List (Option Bool)}
    (h : j.combine? others = j.combine? rest) (value : Option Bool) :
    j.combine? (value :: others) = j.combine? (value :: rest) := by
  rcases j.value_cases value with rfl | rfl | rfl
  · simp
  · simpa using h
  · simp

private theorem combine?_drop {j : Junction} {earlier value : Option Bool}
    {values others : List (Option Bool)} (hmem : earlier ∈ values)
    (hagree : ∀ a b, earlier = some a → value = some b → a = b) {truth : Bool}
    (h : j.combine? (values ++ value :: others) = some truth) :
    j.combine? (values ++ others) = some truth := by
  rw [combine?_append] at h ⊢
  -- In front of the operand, the junction has failed, is still open, or is decided.
  rcases j.value_cases (j.combine? values) with hnone | hneutral | habsorbing
  · rw [hnone] at h
    cases h
  · have hearlier := combine?_eq_neutral_iff.mp hneutral earlier hmem
    rw [hneutral, combine?_neutral] at h ⊢
    rcases j.value_cases value with rfl | rfl | rfl
    · cases h
    · rwa [combine?_neutral] at h
    · exact absurd (hagree _ _ hearlier rfl) j.neutral_ne_absorbing
  · rw [habsorbing, combine?_absorbing] at h ⊢
    exact h

end Junction

variable {κ : Type} [CustomCondition κ]

namespace Cond

/-- The second condition has every truth value that the first one has. -/
def RefinedBy (c d : Cond κ) : Prop :=
  ∀ record truth, c.read? record = some truth → d.read? record = some truth

variable {record : Record}

private theorem combine?_parts (j : Junction) (operand : Cond κ) :
    j.combine? ((j.parts operand).map (read? record)) = operand.read? record := by
  rcases j.parts_cases operand with ⟨rfl, heq⟩ | ⟨operands, rfl, heq⟩ | heq
  · simp [heq]
  · rw [heq, read?_compound]
  · simp [heq]

private theorem combine?_flatMap_parts (j : Junction) (operands : List (Cond κ)) :
    j.combine? ((operands.flatMap j.parts).map (read? record)) =
      j.combine? (operands.map (read? record)) := by
  induction operands with
  | nil => rfl
  | cons operand rest ih =>
    rw [List.flatMap_cons, List.map_append, Junction.combine?_append, combine?_parts, List.map_cons]
    exact Junction.combine?_cons_congr ih _

private theorem combine?_insertAll {j : Junction} (different : OrderedSet (Cond κ))
    {operands : List (Cond κ)} {truth : Bool}
    (h : j.combine? ((different.toList ++ operands).map (read? record)) = some truth) :
    j.combine? ((different.insertAll operands).toList.map (read? record)) = some truth := by
  induction operands generalizing different with
  | nil => simpa using h
  | cons operand rest ih =>
    rw [OrderedSet.insertAll_cons]
    apply ih
    rw [OrderedSet.toList_insert]
    split
    · next hcontains =>
      obtain ⟨earlier, hmem, hbeq⟩ := OrderedSet.contains_iff.mp hcontains
      rw [beq_def] at hbeq
      rw [List.map_append, List.map_cons] at h
      rw [List.map_append]
      apply Junction.combine?_drop (List.mem_map_of_mem hmem) _ h
      intro a b ha hb
      rw [← holds_of_read? ha, ← holds_of_read? hb, holds_eq_of_equal hbeq]
    · simpa using h

/-- A compound is refined by the junction built from its operands. -/
theorem refinedBy_make (j : Junction) (operands : List (Cond κ)) :
    (compound j operands).RefinedBy (j.make operands) := by
  intro record truth h
  have hholds : (j.make operands).holds record = truth := by
    rw [holds_make, holds_of_read? h]
  have hflatten : j.combine? ((j.flatten operands).toList.map (read? record)) = some truth := by
    apply combine?_insertAll
    rwa [OrderedSet.toList_empty, List.nil_append, combine?_flatMap_parts, ← read?_compound]
  revert hholds
  refine j.make_cases operands ?_ ?_ ?_ ?_
  · intro _ hholds
    exact congrArg some hholds
  · intro c hsingle _
    simpa [hsingle] using hflatten
  · intro _ hholds
    exact congrArg some hholds
  · intro _ _ _
    rwa [read?_compound]

/-- A junction evaluates to what is read off its operands before they are joined. -/
theorem evaluatesTo_make {j : Junction} {operands : List (Cond κ)}
    (hfree : ∀ operand ∈ operands, operand.CustomFree) {truth : Bool}
    (h : j.combine? (operands.map (read? record)) = some truth) :
    (j.make operands).EvaluatesTo record truth := by
  rw [evaluatesTo_iff (CustomFree.invariant.make j hfree)]
  apply refinedBy_make
  rwa [read?_compound]

namespace RefinedBy

/-- A condition refines itself. -/
theorem refl (c : Cond κ) : c.RefinedBy c := fun _ _ h ↦ h

/-- What refines a refinement of a condition refines the condition. -/
theorem trans {a b c : Cond κ} (hab : a.RefinedBy b) (hbc : b.RefinedBy c) : a.RefinedBy c :=
  fun record truth h ↦ hbc record truth (hab record truth h)

/-- A compound is refined if its operands are. -/
theorem compound (j : Junction) {operands others : List (Cond κ)}
    (h : List.Forall₂ RefinedBy operands others) :
    (Cond.compound j operands).RefinedBy (.compound j others) := by
  intro record truth hread
  rw [read?_compound] at hread ⊢
  apply Junction.combine?_mono _ hread
  rw [List.forall₂_map_left_iff, List.forall₂_map_right_iff]
  exact h.imp fun operand other hrefined ↦ hrefined record

/-- Refinement is kept when parts are rewritten. -/
theorem rewriting : Rewriting (RefinedBy (κ := κ)) where
  refl := refl
  trans := trans
  negation h record truth hread := by
    rw [read?_negation] at hread
    obtain ⟨inner, hinner, rfl⟩ := Option.map_eq_some_iff.mp hread
    rw [read?_not, h record inner hinner]
    rfl
  compound j _ _ h := (compound j h).trans (refinedBy_make j _)

end RefinedBy

end Cond

/-- The pass makes a condition of the given one, and where evaluating the given one has a result,
evaluating the other has the same. -/
def Pass.KeepsResults (pass : Pass) (c : Cond κ) : Prop :=
  ∃ d p q, pass.run c = .ok (some d) ∧ Predicate.compile c = .ok p ∧ Predicate.compile d = .ok q ∧
    ∀ record truth, p.evaluate record = .ok truth → q.evaluate record = .ok truth

/-- A pass keeps results if it makes a refinement of a condition without custom parts. -/
theorem Cond.RefinedBy.keepsResults {pass : Pass} {c d : Cond κ} (h : c.RefinedBy d)
    (hrun : pass.run c = .ok (some d)) (hfree : c.CustomFree) : pass.KeepsResults c := by
  obtain ⟨p, hp⟩ := exists_compile hfree
  obtain ⟨q, hq⟩ := exists_compile (CustomFree.invariant.run hfree hrun)
  refine ⟨d, p, q, hrun, hp, hq, ?_⟩
  intro record truth
  rw [evaluate_eq_ok_iff hp, evaluate_eq_ok_iff hq]
  exact h record truth

end Criteria
