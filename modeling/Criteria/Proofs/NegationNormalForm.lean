import Criteria.Proofs.Leaves

/-!
# Negation normal form

A condition is in negation normal form if it negates nothing but tests. Pushing negations down makes
junctions that may reduce to anything, but whatever results has been pushed further. Main statement:
the pass ends; where it succeeds, its result is in negation normal form, has no more leaves, and is
left as it is by the pass, like every condition in negation normal form.
-/

namespace Criteria.Cond

variable {κ : Type} [CustomCondition κ]

/-- A node that, if it is a negation, negates a test. -/
def NegatesTest (node : Cond κ) : Prop :=
  ∀ operand, node = negation operand → ∃ key t, operand = test key t

/-- A node that is no negation negates only tests. -/
theorem negatesTest_of_ne {node : Cond κ} (h : ∀ operand, node ≠ negation operand) :
    node.NegatesTest := fun operand heq ↦ absurd heq (h operand)

/-- The negation of a test negates only a test. -/
theorem everywhere_negatesTest_negated (key : RecordKey) (t : Test) :
    (negation (test key t) : Cond κ).Everywhere NegatesTest := by
  refine everywhere_negation.mpr ⟨?_, everywhere_test.mpr (negatesTest_of_ne (by simp))⟩
  rintro _ ⟨⟩
  exact ⟨key, t, rfl⟩

/-- Joining conditions negates nothing. -/
theorem negatesTest_make {j : Junction} {operands : List (Cond κ)}
    (h : ∀ operand ∈ operands, operand.Everywhere NegatesTest) : (j.make operands).NegatesTest := by
  refine j.make_cases operands ?_ ?_ ?_ ?_
  · exact fun _ ↦ negatesTest_of_ne (by simp)
  · intro c hsingle
    exact (Everywhere.of_mem_flatten h (hsingle ▸ List.mem_singleton_self c)).self
  · exact fun _ ↦ negatesTest_of_ne (by simp)
  · exact fun _ _ ↦ negatesTest_of_ne (by simp)

/-- Where pushing negations down succeeds, only tests are negated. -/
theorem everywhere_negatesTest_pushNegations {c d : Cond κ} (h : c.pushNegations = .ok d) :
    d.Everywhere NegatesTest := by
  -- The induction follows the pass, which goes on with a junction that is no part of the condition.
  induction c using pushNegations_induction generalizing d with
  | fixed truth =>
    rw [pushNegations] at h
    cases h
    exact everywhere_fixed.mpr (negatesTest_of_ne (by simp))
  | test key t =>
    rw [pushNegations] at h
    cases h
    exact everywhere_test.mpr (negatesTest_of_ne (by simp))
  | custom leaf =>
    rw [pushNegations] at h
    cases h
    exact everywhere_custom.mpr (negatesTest_of_ne (by simp))
  | compound j operands ih =>
    rw [pushNegations, pushNegationsAll_eq_mapM] at h
    obtain ⟨others, hothers, rfl⟩ := map_eq_ok_iff.mp h
    have hall : ∀ other ∈ others, other.Everywhere NegatesTest := by
      intro other hmem
      obtain ⟨operand, hoperand, hpushed⟩ := exists_mem_of_mapM_eq_ok hothers hmem
      exact ih operand hoperand hpushed
    exact .make (negatesTest_make hall) hall
  | negatedTest key t =>
    rw [pushNegations] at h
    cases h
    exact everywhere_negatesTest_negated key t
  | negatedCompound j operands ih =>
    rw [pushNegations] at h
    exact ih h
  | negatedOther operand htest hcompound =>
    rw [pushNegations_negation_other htest hcompound] at h
    cases h

/-- Pushing negations down adds no leaf. -/
theorem leaves_pushNegations_le {c d : Cond κ} (h : c.pushNegations = .ok d) :
    d.leaves ≤ c.leaves := by
  apply leaves_rewriting.pushNegations _ h
  intro j operands
  rw [leaves_negation, leaves_compound, ← leavesAll_map_not]
  exact j.dual.leaves_make_le _

/-- A condition in normal form that negates only tests is left as it is. -/
theorem pushNegations_eq_self {c : Cond κ} (hnormal : c.Everywhere IsNormal)
    (hnegates : c.Everywhere NegatesTest) : c.pushNegations = .ok c := by
  induction c with
  | fixed truth => rw [pushNegations]
  | test key t => rw [pushNegations]
  | custom leaf => rw [pushNegations]
  | negation operand _ =>
    obtain ⟨key, t, rfl⟩ := hnegates.self operand rfl
    rw [pushNegations]
  | compound j operands ih =>
    have hall : operands.mapM pushNegations = .ok operands := by
      rw [mapM_eq_ok_iff, List.forall₂_same]
      intro operand hmem
      exact ih operand hmem ((everywhere_compound.mp hnormal).2 operand hmem)
        ((everywhere_compound.mp hnegates).2 operand hmem)
    rw [pushNegations, pushNegationsAll_eq_mapM, hall]
    exact congrArg Except.ok (IsNormal.make_eq hnormal.self)

/-- Pushing down the negations of the second condition goes on with the first one: with an operand
of a compound, or with the dual junction of the negated operands of a negated compound. -/
inductive NegationCall : Cond κ → Cond κ → Prop
  | operand {j : Junction} {operands : List (Cond κ)} {c : Cond κ} (h : c ∈ operands) :
    NegationCall c (.compound j operands)
  | pushed (j : Junction) (operands : List (Cond κ)) :
    NegationCall (j.dual.make (operands.map Cond.not)) (.negation (.compound j operands))

/-- Pushing negations down never goes on for ever: each call is for a lighter condition. -/
theorem wellFounded_negationCall : WellFounded (NegationCall (κ := κ)) := by
  apply Subrelation.wf _ (measure weight).wf
  intro d c hcall
  cases hcall with
  | operand h =>
    have hlt := weight_lt_of_mem h
    show d.weight < weight (.compound _ _)
    rw [weight]
    omega
  | pushed j operands => exact weight_make_not_lt j.dual j operands

/-- Pushing negations down ends. Where it succeeds, only tests are negated, no leaf is added, and
pushing negations down again gives the same. A condition that can be built and negates only tests is
left as it is. -/
theorem pushNegations_normalForm {c : Cond κ} (h : c.Reachable) :
    Acc NegationCall c ∧
      (∀ d, c.pushNegations = .ok d →
        d.Everywhere NegatesTest ∧ d.leaves ≤ c.leaves ∧ d.pushNegations = .ok d) ∧
      (c.Everywhere NegatesTest → c.pushNegations = .ok c) := by
  refine ⟨wellFounded_negationCall.apply c, ?_, pushNegations_eq_self h.everywhere_isNormal⟩
  intro d hd
  have hnormal := (Reachable.invariant.pushNegations h hd).everywhere_isNormal
  have hnegates := everywhere_negatesTest_pushNegations hd
  exact ⟨hnegates, leaves_pushNegations_le hd, pushNegations_eq_self hnormal hnegates⟩

/-- The negation of a conjunction with a disjunction among its operands is brought into negation
normal form, and that form is left as it is. -/
theorem pushNegations_normalForm_nested : ∃ c : Cond Empty,
    c = Cond.not (.and [.test ⟨"a", rfl⟩ .isTrue,
      .or [.test ⟨"b", rfl⟩ .isNull, Cond.not (.test ⟨"c", rfl⟩ .isTrue)]]) ∧
      Acc NegationCall c ∧ ∃ d, c.pushNegations = .ok d ∧ d.Everywhere NegatesTest ∧
        d.leaves ≤ c.leaves ∧ d.pushNegations = .ok d := by
  have htrue (key : RecordKey) : (.test key .isTrue : Cond Empty).Reachable :=
    .test key (by decide)
  have hb : (.test ⟨"b", rfl⟩ .isNull : Cond Empty).Reachable := .test _ (by decide)
  have hc : (Cond.not (.and [.test ⟨"a", rfl⟩ .isTrue, .or [.test ⟨"b", rfl⟩ .isNull,
      Cond.not (.test ⟨"c", rfl⟩ .isTrue)]]) : Cond Empty).Reachable :=
    .not (.make_pair .and (htrue _) (.make_pair .or hb (.not (htrue _))))
  obtain ⟨d, hd⟩ := exists_pushNegations hc fun _ _ leaf ↦ leaf.elim
  obtain ⟨hends, hpushed, -⟩ := pushNegations_normalForm hc
  obtain ⟨-, -, hself⟩ := pushNegations_normalForm (Reachable.invariant.pushNegations hc hd)
  obtain ⟨hnegates, hleaves, -⟩ := hpushed d hd
  exact ⟨_, rfl, hends, d, hd, hnegates, hleaves, hself hnegates⟩

end Criteria.Cond
