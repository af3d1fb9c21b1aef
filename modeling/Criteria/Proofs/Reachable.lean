import Criteria.Proofs.Rewriting

/-!
# Conditions that can be built

The tree of a condition is unrestricted, but conditions are only obtained by building them. Main
statements: every part of a condition that can be built can be built itself, and a pass makes
conditions that can be built of such conditions. A negation in such a condition never stands over
a constant or a negation, so that without custom parts every pass succeeds.
-/

namespace Criteria.Cond

variable {κ : Type} [CustomCondition κ]

/-- The conditions that some calls of the constructing functions build. A test of membership is
built from the list of its values, and any other test as it is. -/
inductive Reachable : Cond κ → Prop
  | fixed (truth : Bool) : Reachable (.fixed truth)
  | custom (leaf : κ) : Reachable (.custom leaf)
  | test (key : RecordKey) {t : Test} (h : t.kind ≠ .oneOf) : Reachable (.test key t)
  | memberOf (key : RecordKey) (values : List Value) : Reachable (.memberOf key values)
  | not {c : Cond κ} (h : Reachable c) : Reachable c.not
  | make (j : Junction) {operands : List (Cond κ)} (h : ∀ c ∈ operands, Reachable c) :
    Reachable (j.make operands)

/-- Two conditions that can be built can be joined. -/
theorem Reachable.make_pair (j : Junction) {x y : Cond κ} (hx : x.Reachable) (hy : y.Reachable) :
    (j.make [x, y]).Reachable := by
  apply Reachable.make
  simp only [List.forall_mem_cons]
  exact ⟨hx, hy, List.forall_mem_nil _⟩

/-- Every part of a condition that can be built can be built. -/
theorem Reachable.everywhere {c : Cond κ} (h : Reachable c) : Everywhere Reachable c := by
  induction h with
  | fixed truth => exact everywhere_fixed.mpr (.fixed truth)
  | custom leaf => exact everywhere_custom.mpr (.custom leaf)
  | test key hkind => exact everywhere_test.mpr (.test key hkind)
  | memberOf key values => exact everywhere_memberOf.mpr (.memberOf key values)
  | not h ih => exact .not (.not h) ih
  | make j h ih => exact .make (.make j h) ih

/-- Conditions that can be built are taken apart into such conditions and built from them. -/
theorem Reachable.invariant : Invariant (Reachable (κ := κ)) where
  fixed := .fixed
  not := .not
  make := .make
  memberOf _ _ := .memberOf _
  negated h := (everywhere_negation.mp h.everywhere).2.self
  operand h c hc := ((everywhere_compound.mp h.everywhere).2 c hc).self

/-- A node that, if it is a negation, negates neither a constant nor a negation. -/
def NegatesOnce (node : Cond κ) : Prop :=
  ∀ operand, node = negation operand →
    (∀ truth, operand ≠ .fixed truth) ∧ ∀ inner, operand ≠ .negation inner

/-- Nothing that is built negates a constant or a negation. -/
theorem Reachable.negatesOnce {c : Cond κ} (h : Reachable c) : NegatesOnce c := by
  have hinvariant : Invariant (Everywhere (NegatesOnce (κ := κ))) := by
    apply Invariant.everywhere
    · exact fun _ ↦ nofun
    · rintro operand hfixed hnegation _ ⟨⟩
      exact ⟨hfixed, hnegation⟩
    · exact fun _ _ ↦ nofun
    · intro c key values _ _ members
      exact memberOf_cases key members (fun _ ↦ nofun) (fun _ _ ↦ nofun) fun _ ↦ nofun
  suffices Everywhere NegatesOnce c from this.self
  induction h with
  | fixed truth => exact hinvariant.fixed truth
  | custom leaf => exact everywhere_custom.mpr nofun
  | test key hkind => exact everywhere_test.mpr nofun
  | memberOf key values =>
    exact hinvariant.memberOf (c := .test key (.equal default)) rfl (everywhere_test.mpr nofun) _
  | not _ ih => exact hinvariant.not ih
  | make j _ ih => exact hinvariant.make j ih

/-! ## Conditions without custom parts -/

/-- A condition without custom parts. -/
def CustomFree (c : Cond κ) : Prop := c.Everywhere fun node ↦ ∀ leaf, node ≠ custom leaf

/-- Neither building nor taking apart brings in a custom part. -/
theorem CustomFree.invariant : Invariant (CustomFree (κ := κ)) := by
  apply Invariant.everywhere
  · exact fun _ ↦ nofun
  · exact fun _ _ _ ↦ nofun
  · exact fun _ _ ↦ nofun
  · intro c key values _ _ members
    exact memberOf_cases key members (fun _ ↦ nofun) (fun _ _ ↦ nofun) fun _ ↦ nofun

/-- Without custom parts, the negations of a condition that can be built can be pushed down. -/
theorem exists_pushNegations {c : Cond κ} (hreachable : c.Reachable) (hfree : c.CustomFree) :
    ∃ d, c.pushNegations = .ok d := by
  induction c using pushNegations_induction with
  | fixed truth => exact ⟨.fixed truth, by rw [pushNegations]⟩
  | test key t => exact ⟨.test key t, by rw [pushNegations]⟩
  | custom leaf => exact absurd rfl (hfree.self leaf)
  | negatedTest key t => exact ⟨.negation (.test key t), by rw [pushNegations]⟩
  | compound j operands ih =>
    have hall : ∀ operand ∈ operands, ∃ d, pushNegations operand = .ok d := by
      intro operand hmem
      exact ih operand hmem (Reachable.invariant.operand hreachable operand hmem)
        (CustomFree.invariant.operand hfree operand hmem)
    obtain ⟨others, hothers⟩ := exists_mapM_eq_ok hall
    refine ⟨j.make others, ?_⟩
    rw [pushNegations, pushNegationsAll_eq_mapM, hothers]
    rfl
  | negatedCompound j operands ih =>
    rw [pushNegations]
    exact ih (Reachable.invariant.negated_junction hreachable)
      (CustomFree.invariant.negated_junction hfree)
  | negatedOther operand htest hcompound =>
    obtain ⟨hfixed, hnegation⟩ := hreachable.negatesOnce operand rfl
    have hself := (CustomFree.invariant.negated hfree).self
    cases operand with
    | fixed truth => exact absurd rfl (hfixed truth)
    | test key t => exact absurd rfl (htest key t)
    | custom leaf => exact absurd rfl (hself leaf)
    | negation inner => exact absurd rfl (hnegation inner)
    | compound j operands => exact absurd rfl (hcompound j operands)

/-- Without custom parts, every pass makes a condition of a condition that can be built. -/
theorem exists_run (pass : Pass) {c : Cond κ} (hreachable : c.Reachable)
    (hfree : c.CustomFree) : ∃ d, pass.run c = .ok (some d) := by
  cases pass with
  | factoring => exact ⟨c.factor, rfl⟩
  | merging => exact ⟨c.merge, rfl⟩
  | negation =>
    obtain ⟨d, hd⟩ := exists_pushNegations hreachable hfree
    exact ⟨d, by rw [Pass.run, hd]; rfl⟩

/-- Without custom parts, every sequence of passes makes a condition of a condition that can be
built. -/
theorem exists_runAll (passes : List Pass) {c : Cond κ} (hreachable : c.Reachable)
    (hfree : c.CustomFree) : ∃ d, Pass.runAll passes c = .ok (some d) := by
  induction passes generalizing c with
  | nil => exact ⟨c, rfl⟩
  | cons pass passes ih =>
    obtain ⟨e, he⟩ := exists_run pass hreachable hfree
    obtain ⟨d, hd⟩ := ih (Reachable.invariant.run hreachable he)
      (CustomFree.invariant.run hfree he)
    exact ⟨d, Pass.runAll_cons_eq_ok_iff.mpr ⟨e, he, hd⟩⟩

end Criteria.Cond
