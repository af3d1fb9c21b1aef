import Criteria.Proofs.Reachable

/-!
# Custom conditions under negations

A negation can be pushed over everything but a custom condition. On its way down, pushing takes two
negations away at a time or moves one over a junction, so that it never changes whether the
negations above a custom condition are even or odd in number. Main statement: where the pass fails,
it names a custom condition that stands under an odd number of negations.
-/

namespace Criteria.Cond

variable {κ : Type} [CustomCondition κ]

mutual

/-- The custom conditions in a condition, from left to right, each after the number of negations
that it stands under. -/
def customs : Cond κ → List (Nat × κ)
  | fixed _ => []
  | test _ _ => []
  | custom leaf => [(0, leaf)]
  | negation operand => (customs operand).map (Prod.map (· + 1) id)
  | compound _ operands => customsAll operands

/-- The custom conditions in several conditions, one condition after the other. -/
def customsAll : List (Cond κ) → List (Nat × κ)
  | [] => []
  | operand :: rest => customs operand ++ customsAll rest

end

/-- The custom conditions in several conditions are those in each of them. -/
theorem customsAll_eq_flatMap (operands : List (Cond κ)) :
    customsAll operands = operands.flatMap customs := by
  induction operands with
  | nil => rfl
  | cons operand rest ih => rw [customsAll, ih, List.flatMap_cons]

variable {depth : Nat} {leaf : κ}

/-- Under a negation, every custom condition stands under one negation more. -/
theorem mem_customs_negation_iff {operand : Cond κ} :
    (depth, leaf) ∈ (negation operand).customs ↔
      ∃ other, (other, leaf) ∈ operand.customs ∧ depth = other + 1 := by
  rw [customs, List.mem_map]
  constructor
  · rintro ⟨⟨other, _⟩, hmem, ⟨⟩⟩
    exact ⟨other, hmem, rfl⟩
  · rintro ⟨other, hmem, rfl⟩
    exact ⟨(other, leaf), hmem, rfl⟩

/-- The custom conditions in a compound are those in its operands. -/
theorem mem_customs_compound_iff {j : Junction} {operands : List (Cond κ)} :
    (depth, leaf) ∈ (compound j operands).customs ↔
      ∃ operand ∈ operands, (depth, leaf) ∈ operand.customs := by
  rw [customs, customsAll_eq_flatMap, List.mem_flatMap]

/-! ## Building -/

/-- In a negated condition, a custom condition stands under an odd number of negations exactly if it
stood under an even one. -/
theorem exists_mem_customs_of_not {c : Cond κ} (h : (depth, leaf) ∈ c.not.customs) :
    ∃ other, (other, leaf) ∈ c.customs ∧ (depth + other) % 2 = 1 := by
  have hadded (hnot : c.not = negation c) :
      ∃ other, (other, leaf) ∈ c.customs ∧ (depth + other) % 2 = 1 := by
    rw [hnot, mem_customs_negation_iff] at h
    obtain ⟨other, hmem, rfl⟩ := h
    exact ⟨other, hmem, by omega⟩
  cases c with
  | fixed truth => cases h
  | negation operand =>
    exact ⟨depth + 1, mem_customs_negation_iff.mpr ⟨depth, h, rfl⟩, by omega⟩
  | test key t => exact hadded rfl
  | custom leaf => exact hadded rfl
  | compound j operands => exact hadded rfl

private theorem exists_mem_customs_of_mem_flatten {j : Junction} {operands : List (Cond κ)}
    {c : Cond κ} (hc : c ∈ (j.flatten operands).toList) (h : (depth, leaf) ∈ c.customs) :
    ∃ operand ∈ operands, (depth, leaf) ∈ operand.customs := by
  obtain ⟨operand, hoperand, hpart⟩ := Junction.exists_mem_parts_of_mem_flatten hc
  refine ⟨operand, hoperand, ?_⟩
  rcases j.parts_cases operand with ⟨-, heq⟩ | ⟨inner, rfl, heq⟩ | heq
  · rw [heq] at hpart
    cases hpart
  · rw [heq] at hpart
    exact mem_customs_compound_iff.mpr ⟨c, hpart, h⟩
  · rw [heq, List.mem_singleton] at hpart
    rwa [← hpart]

/-- The custom conditions in a junction are in the operands. -/
theorem exists_mem_customs_of_make {j : Junction} {operands : List (Cond κ)}
    (h : (depth, leaf) ∈ (j.make operands).customs) :
    ∃ operand ∈ operands, (depth, leaf) ∈ operand.customs := by
  revert h
  refine j.make_cases operands ?_ ?_ ?_ ?_
  · exact fun _ ↦ nofun
  · exact fun c hsingle ↦
      exists_mem_customs_of_mem_flatten (hsingle ▸ List.mem_singleton_self c)
  · exact fun _ ↦ nofun
  · intro _ _ h
    obtain ⟨c, hc, h⟩ := mem_customs_compound_iff.mp h
    exact exists_mem_customs_of_mem_flatten hc h

/-! ## Pushing negations down -/

private theorem exists_mem_customs_of_pushed {j : Junction} {operands : List (Cond κ)}
    (h : (depth, leaf) ∈ (j.dual.make (operands.map Cond.not)).customs) :
    ∃ other, (other, leaf) ∈ (negation (compound j operands)).customs ∧ other % 2 = depth % 2 := by
  obtain ⟨negated, hnegated, h⟩ := exists_mem_customs_of_make h
  obtain ⟨operand, hoperand, rfl⟩ := List.mem_map.mp hnegated
  obtain ⟨other, hother, hparity⟩ := exists_mem_customs_of_not h
  refine ⟨other + 1, mem_customs_negation_iff.mpr ⟨other, ?_, rfl⟩, by omega⟩
  exact mem_customs_compound_iff.mpr ⟨operand, hoperand, hother⟩

/-- Where the negations of a condition that can be built cannot be pushed down, the failure names a
custom condition that stands under an odd number of negations. -/
theorem exists_custom_of_pushNegations_eq_error {c : Cond κ} (h : c.Reachable)
    {e : TraversalError} (he : c.pushNegations = .error e) :
    ∃ depth leaf, (depth, leaf) ∈ c.customs ∧ depth % 2 = 1 ∧
      e = .unsupportedNegation (CustomCondition.label leaf) := by
  induction c using pushNegations_induction with
  | fixed truth => rw [pushNegations] at he; cases he
  | test key t => rw [pushNegations] at he; cases he
  | custom leaf => rw [pushNegations] at he; cases he
  | negatedTest key t => rw [pushNegations] at he; cases he
  | compound j operands ih =>
    rw [pushNegations, pushNegationsAll_eq_mapM, map_eq_error_iff] at he
    obtain ⟨operand, hoperand, hfails⟩ := exists_mem_of_mapM_eq_error he
    obtain ⟨depth, leaf, hmem, hodd, rfl⟩ :=
      ih operand hoperand (Reachable.invariant.operand h operand hoperand) hfails
    exact ⟨depth, leaf, mem_customs_compound_iff.mpr ⟨operand, hoperand, hmem⟩, hodd, rfl⟩
  | negatedCompound j operands ih =>
    rw [pushNegations] at he
    obtain ⟨depth, leaf, hmem, hodd, rfl⟩ := ih (Reachable.invariant.negated_junction h) he
    obtain ⟨other, hother, hparity⟩ := exists_mem_customs_of_pushed hmem
    exact ⟨other, leaf, hother, hparity.trans hodd, rfl⟩
  | negatedOther operand htest hcompound =>
    rw [pushNegations_negation_other htest hcompound] at he
    cases he
    obtain ⟨hfixed, hnegation⟩ := h.negatesOnce operand rfl
    cases operand with
    | custom leaf =>
      exact ⟨1, leaf, mem_customs_negation_iff.mpr ⟨0, List.mem_singleton_self _, rfl⟩, rfl, rfl⟩
    | fixed truth => exact absurd rfl (hfixed truth)
    | test key t => exact absurd rfl (htest key t)
    | negation inner => exact absurd rfl (hnegation inner)
    | compound j operands => exact absurd rfl (hcompound j operands)

end Criteria.Cond

namespace Criteria.Pass

variable {κ : Type} [CustomCondition κ]

open Cond

/-- Of a condition that can be built, pushing negations down makes a condition, or fails and names a
custom condition that stands under an odd number of negations. So it makes a condition if every
custom condition stands under an even number of negations. -/
theorem negation_outcome {c : Cond κ} (h : c.Reachable) :
    ((∃ d, Pass.negation.run c = .ok (some d)) ∨
      ∃ depth leaf, (depth, leaf) ∈ c.customs ∧ depth % 2 = 1 ∧
        Pass.negation.run c = .error (.unsupportedNegation (CustomCondition.label leaf))) ∧
    ((∀ depth leaf, (depth, leaf) ∈ c.customs → depth % 2 = 0) →
      ∃ d, Pass.negation.run c = .ok (some d)) := by
  have houtcome : (∃ d, Pass.negation.run c = .ok (some d)) ∨
      ∃ depth leaf, (depth, leaf) ∈ c.customs ∧ depth % 2 = 1 ∧
        Pass.negation.run c = .error (.unsupportedNegation (CustomCondition.label leaf)) := by
    rw [run]
    cases hpushed : c.pushNegations with
    | ok d => exact .inl ⟨d, rfl⟩
    | error e =>
      obtain ⟨depth, leaf, hmem, hodd, rfl⟩ := exists_custom_of_pushNegations_eq_error h hpushed
      exact .inr ⟨depth, leaf, hmem, hodd, rfl⟩
  refine ⟨houtcome, fun heven ↦ houtcome.resolve_right ?_⟩
  rintro ⟨depth, leaf, hmem, hodd, -⟩
  have hparity := heven depth leaf hmem
  omega

/-- Two custom conditions are negated twice, with junctions of both kinds in between, and the
negations can be pushed down. With another one beside them that is negated once, they cannot, and
the failure names that one. -/
theorem negation_outcome_nested : ∃ c d : Cond Marked,
    c = .not (.and [.test ⟨"a", rfl⟩ .isTrue,
      .not (.or [.custom ⟨.tagged, "t"⟩,
        .and [.custom ⟨.loose, "u"⟩, .test ⟨"b", rfl⟩ .isNull]])]) ∧
    d = .or [c, .not (.and [.test ⟨"b", rfl⟩ .isNull, .custom ⟨.bare, "v"⟩])] ∧
    (∃ pushed, Pass.negation.run c = .ok (some pushed)) ∧
    Pass.negation.run d = .error (.unsupportedNegation "OpaqueCond") := by
  have hitem (key : RecordKey) {t : Test} (h : t.kind ≠ .oneOf) :
      (Cond.test key t : Cond Marked).Reachable := .test key h
  have heven {c : Cond Marked} (hc : c.Reachable)
      (hall : c.customs.all (fun custom ↦ custom.1 % 2 == 0) = true) :
      ∃ pushed, Pass.negation.run c = .ok (some pushed) :=
    (negation_outcome hc).2 fun depth leaf hmem ↦ by simpa using List.all_eq_true.mp hall _ hmem
  have hodd {d : Cond Marked} {label : String} (hd : d.Reachable)
      (hfails : (Pass.negation.run d).toOption.isSome = false)
      (hall : d.customs.all (fun custom ↦
        custom.1 % 2 == 0 || CustomCondition.label custom.2 == label) = true) :
      Pass.negation.run d = .error (.unsupportedNegation label) := by
    rcases (negation_outcome hd).1 with ⟨pushed, hpushed⟩ | ⟨depth, leaf, hmem, hodd, herror⟩
    · rw [hpushed] at hfails
      cases hfails
    · have hleaf := List.all_eq_true.mp hall _ hmem
      simp only [hodd, Bool.or_eq_true, beq_iff_eq, Nat.one_ne_zero, false_or] at hleaf
      rw [herror, hleaf]
  refine ⟨_, _, rfl, rfl, heven ?reachable ?_, hodd ?_ ?_ ?_⟩
  · exact .not (.make_pair .and (hitem _ (by decide)) (.not (.make_pair .or (.custom _)
      (.make_pair .and (.custom _) (hitem _ (by decide))))))
  · decide +kernel
  · exact .make_pair .or ?reachable (.not (.make_pair .and (hitem _ (by decide)) (.custom _)))
  · decide +kernel
  · decide +kernel

end Criteria.Pass
