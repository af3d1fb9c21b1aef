import Criteria.Proofs.Reachable

/-!
# Normal form

Building reduces, so that some trees are never built: no negation stands over a constant or a
negation, and the operands of a junction have nothing left to reduce. Main statements: every node of
a condition that can be built is in normal form, and what is in normal form is given back when it is
built again from its parts.
-/

namespace Criteria

variable {κ : Type} [CustomCondition κ]

/-- Operands of which building the junction leaves all as they are. -/
structure Junction.NormalOperands (j : Junction) (operands : List (Cond κ)) : Prop where
  /-- There are at least two. -/
  several : 2 ≤ operands.length
  /-- No operand equals an earlier one. -/
  different : operands.Pairwise fun earlier later ↦ (earlier == later) = false
  /-- No operand is a constant. -/
  notFixed : ∀ operand ∈ operands, ∀ truth, operand ≠ .fixed truth
  /-- No operand is a junction of the same kind. -/
  notNested : ∀ operand ∈ operands, ∀ inner, operand ≠ .compound j inner
  /-- No operand equals the negation of one. -/
  notContradictory : ∀ x ∈ operands, ∀ y ∈ operands, (y == x.not) = false

namespace Cond

/-- A node that nothing can be reduced at. A test has an ASCII key, and if it is one of membership,
at least two values, none of which equals an earlier one. -/
def IsNormal : Cond κ → Prop
  | fixed _ => True
  | test key t => key.name.toList.all (·.toNat < 128) = true ∧ ∀ members, t = .oneOf members →
      2 ≤ members.toList.length ∧
        members.toList.Pairwise fun earlier later ↦ (earlier == later) = false
  | custom _ => True
  | negation operand =>
    (∀ truth, operand ≠ .fixed truth) ∧ ∀ inner, operand ≠ .negation inner
  | compound j operands => j.NormalOperands operands

end Cond

/-! ## What is built is in normal form -/

namespace Junction

/-- What an operand in normal form contributes to a junction is neither the neutral constant nor a
junction of the same kind. -/
theorem not_reducible_of_mem_parts {j : Junction} {operand part : Cond κ} (h : operand.IsNormal)
    (hpart : part ∈ j.parts operand) :
    part ≠ .fixed j.neutral ∧ ∀ inner, part ≠ .compound j inner := by
  cases operand with
  | fixed truth =>
    rw [parts] at hpart
    split at hpart
    · cases hpart
    · next hne =>
      rw [List.mem_singleton.mp hpart]
      exact ⟨fun heq ↦ hne (Cond.fixed.inj heq), by simp⟩
  | compound i operands =>
    rw [parts] at hpart
    split at hpart
    · next heq =>
      subst heq
      exact ⟨h.notFixed part hpart _, h.notNested part hpart⟩
    · next hne =>
      rw [List.mem_singleton.mp hpart]
      exact ⟨by simp, fun inner heq ↦ hne (Cond.compound.inj heq).1⟩
  | test key t =>
    rw [List.mem_singleton.mp hpart]
    simp
  | custom leaf =>
    rw [List.mem_singleton.mp hpart]
    simp
  | negation inner =>
    rw [List.mem_singleton.mp hpart]
    simp

private theorem normalOperands_flatten {j : Junction} {operands : List (Cond κ)}
    (h : ∀ operand ∈ operands, operand.IsNormal)
    (hseveral : 2 ≤ (j.flatten operands).toList.length)
    (hdecided : j.isDecided (j.flatten operands) = false) :
    j.NormalOperands (j.flatten operands).toList := by
  rw [isDecided, Bool.or_eq_false_iff] at hdecided
  obtain ⟨hconstant, hcontradictory⟩ := hdecided
  have hparts : ∀ c ∈ (j.flatten operands).toList,
      c ≠ .fixed j.neutral ∧ ∀ inner, c ≠ .compound j inner := by
    intro c hc
    obtain ⟨operand, hmem, hpart⟩ := exists_mem_parts_of_mem_flatten hc
    exact not_reducible_of_mem_parts (h operand hmem) hpart
  refine ⟨hseveral, (j.flatten operands).distinct, ?_, fun c hc ↦ (hparts c hc).2, ?_⟩
  · rintro c hc truth rfl
    rcases j.eq_neutral_or_eq_absorbing truth with rfl | rfl
    · exact (hparts _ hc).1 rfl
    · exact List.any_eq_false.mp hconstant _ hc (beq_self_eq_true _)
  · intro x hx y hy
    have hnot := List.any_eq_false.mp hcontradictory x hx
    exact Bool.eq_false_iff.mpr (List.any_eq_false.mp (Bool.eq_false_iff.mpr hnot) y hy)

end Junction

namespace Cond

/-- Every test but one of membership is in normal form. -/
theorem isNormal_test (key : RecordKey) {t : Test} (h : t.kind ≠ .oneOf) :
    IsNormal (test key t : Cond κ) := by
  refine ⟨key.ascii, ?_⟩
  rintro members rfl
  exact absurd rfl h

/-- What is built from the values of a list is in normal form. -/
theorem isNormal_memberOf (key : RecordKey) (values : List Value) :
    IsNormal (memberOf key values : Cond κ) := by
  refine memberOf_cases key values ?_ ?_ ?_
  · exact fun _ ↦ trivial
  · exact fun v _ ↦ isNormal_test key nofun
  · intro hseveral
    refine ⟨key.ascii, ?_⟩
    rintro _ ⟨⟩
    exact ⟨hseveral, (OrderedSet.ofList values).distinct⟩

/-- The negation of a condition in normal form is in normal form. -/
theorem isNormal_not {c : Cond κ} (h : c.Everywhere IsNormal) : c.not.IsNormal := by
  cases c with
  | fixed truth => trivial
  | negation operand => exact (everywhere_negation.mp h).2.self
  | test key t => exact ⟨nofun, nofun⟩
  | custom leaf => exact ⟨nofun, nofun⟩
  | compound j operands => exact ⟨nofun, nofun⟩

/-- A junction of conditions in normal form is in normal form. -/
theorem isNormal_make {j : Junction} {operands : List (Cond κ)}
    (h : ∀ operand ∈ operands, operand.Everywhere IsNormal) : (j.make operands).IsNormal := by
  refine j.make_cases operands ?_ ?_ ?_ ?_
  · exact fun _ ↦ trivial
  · intro c hsingle
    exact (Everywhere.of_mem_flatten h (hsingle ▸ List.mem_singleton_self c)).self
  · exact fun _ ↦ trivial
  · exact Junction.normalOperands_flatten fun operand hmem ↦ (h operand hmem).self

/-- Every node of a condition that can be built is in normal form. -/
theorem Reachable.everywhere_isNormal {c : Cond κ} (h : c.Reachable) :
    c.Everywhere IsNormal := by
  induction h with
  | fixed truth => exact everywhere_fixed.mpr trivial
  | custom leaf => exact everywhere_custom.mpr trivial
  | test key hkind => exact everywhere_test.mpr (isNormal_test key hkind)
  | memberOf key values => exact everywhere_memberOf.mpr (isNormal_memberOf key values)
  | not _ ih => exact .not (isNormal_not ih) ih
  | make j _ ih => exact .make (isNormal_make ih) ih

/-- A constant is found at a node of a condition in normal form only if it is the whole condition.
-/
theorem eq_fixed_of_mem_nodes {c : Cond κ} (h : c.Everywhere IsNormal) {truth : Bool}
    (hmem : fixed truth ∈ c.nodes) : c = fixed truth := by
  induction c with
  | fixed other => exact (List.mem_singleton.mp hmem).symm
  | test key t => exact nomatch List.mem_singleton.mp hmem
  | custom leaf => exact nomatch List.mem_singleton.mp hmem
  | negation operand ih =>
    rw [everywhere_negation] at h
    rcases List.mem_cons.mp hmem with heq | hmem
    · cases heq
    · exact absurd (ih h.2 hmem) (h.1.1 truth)
  | compound j operands ih =>
    rw [everywhere_compound] at h
    rcases mem_nodes_compound_iff.mp hmem with heq | ⟨operand, hoperand, hmem⟩
    · cases heq
    · exact absurd (ih operand hoperand (h.2 operand hoperand) hmem)
        (h.1.notFixed operand hoperand truth)

end Cond

/-! ## What is in normal form is built again as it is -/

/-- A junction in normal form has operands. -/
theorem Junction.NormalOperands.ne_nil {j : Junction} {operands : List (Cond κ)}
    (h : j.NormalOperands operands) : operands ≠ [] :=
  List.ne_nil_of_length_pos (Nat.zero_lt_of_lt h.several)

/-- Operands in normal form contribute themselves. -/
theorem Junction.NormalOperands.parts_eq {j : Junction} {operands : List (Cond κ)}
    (h : j.NormalOperands operands) {operand : Cond κ} (hmem : operand ∈ operands) :
    j.parts operand = [operand] := by
  rcases j.parts_cases operand with ⟨heq, -⟩ | ⟨inner, heq, -⟩ | heq
  · exact absurd heq (h.notFixed operand hmem _)
  · exact absurd heq (h.notNested operand hmem inner)
  · exact heq

namespace Cond

/-- What a negation in normal form negates is negated to it. -/
theorem IsNormal.not_eq {operand : Cond κ} (h : IsNormal (negation operand)) :
    operand.not = negation operand := by
  cases operand with
  | fixed truth => exact absurd rfl (h.1 truth)
  | negation inner => exact absurd rfl (h.2 inner)
  | test key t => rfl
  | custom leaf => rfl
  | compound j operands => rfl

/-- The operands of a junction in normal form are joined to it. -/
theorem IsNormal.make_eq {j : Junction} {operands : List (Cond κ)}
    (h : IsNormal (compound j operands)) : j.make operands = compound j operands := by
  -- No operand is taken apart, none is left out as a duplicate, and none decides the junction.
  have hparts : operands.flatMap j.parts = operands := by
    have hself : operands.flatMap j.parts = operands.flatMap fun operand ↦ [operand] :=
      List.flatMap_congr fun operand hmem ↦ Junction.NormalOperands.parts_eq h hmem
    rw [hself, List.flatMap_singleton']
  have hflatten : (j.flatten operands).toList = operands := by
    rw [Junction.flatten, hparts, OrderedSet.toList_ofList_of_distinct h.different]
  have hundecided : j.isDecided (j.flatten operands) = false := by
    rw [Junction.isDecided, Bool.or_eq_false_iff]
    constructor
    · rw [OrderedSet.contains, hflatten, List.any_eq_false]
      intro operand hmem hbeq
      exact h.notFixed operand hmem _ (beq_fixed_iff.mp hbeq)
    · rw [Junction.isContradictory, hflatten, List.any_eq_false]
      intro x hx
      rw [OrderedSet.contains, hflatten, Bool.not_eq_true, List.any_eq_false]
      exact fun y hy ↦ Bool.eq_false_iff.mp (h.notContradictory x hx y hy)
  have hseveral := h.several
  refine j.make_cases operands ?_ ?_ ?_ ?_
  · intro hnil
    rw [← hflatten, hnil] at hseveral
    simp at hseveral
  · intro c hsingle
    rw [← hflatten, hsingle] at hseveral
    simp at hseveral
  · intro hdecided
    exact absurd hdecided (Bool.eq_false_iff.mp hundecided)
  · intro _ _
    rw [hflatten]

end Cond

end Criteria
