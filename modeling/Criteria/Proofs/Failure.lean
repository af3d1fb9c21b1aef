import Criteria.Proofs.Membership

/-!
# What failures come from

Evaluating a condition fails where one of its tests does, and with the failure of the test. Passes
bring in no tests but tests of equality and membership, and these fail like any other test of their
key. Main statement: no pass brings in a failure that no test of the condition has.
-/

namespace Criteria

variable {κ : Type} [CustomCondition κ] {record : Record}

/-- A junction of predicates fails only if one of them does. -/
theorem Junction.exists_mem_of_evaluate_eq_error {j : Junction} {predicates : List Predicate}
    {e : EvaluationError} (h : j.evaluate record predicates = .error e) :
    ∃ p ∈ predicates, p.evaluate record = .error e := by
  induction predicates with
  | nil => cases h
  | cons p rest ih =>
    rw [evaluate] at h
    cases hfirst : p.evaluate record with
    | error other =>
      rw [hfirst] at h
      cases h
      exact ⟨p, List.mem_cons_self, hfirst⟩
    | ok truth =>
      rw [hfirst] at h
      change (if truth = j.absorbing then _ else _) = _ at h
      split at h
      · cases h
      · obtain ⟨q, hq, hfails⟩ := ih h
        exact ⟨q, List.mem_cons_of_mem p hq, hfails⟩

namespace Test

private theorem evaluate_eq_error_of_passes {t u : Test} {key : RecordKey} {passed : Value → Bool}
    (hu : ∀ value, u.passes key.name value = .ok (passed value)) {e : EvaluationError}
    (h : u.evaluate key record = .error e) : t.evaluate key record = .error e := by
  rw [evaluate] at h ⊢
  cases hheld : record.get key.name with
  | error other => rwa [hheld] at h
  | ok held =>
    rw [hheld] at h
    rcases held with _ | _ | value | values
    · cases h
    · exact h
    · change u.passes key.name value = _ at h
      rw [hu] at h
      cases h
    · change u.anyPasses key.name values = _ at h
      rw [anyPasses_eq hu] at h
      cases h

end Test

namespace Cond

/-- Evaluation fails only with the failure of a test. -/
theorem exists_test_of_evaluate_eq_error {c : Cond κ} {p : Predicate}
    (hp : Predicate.compile c = .ok p) {e : EvaluationError} (h : p.evaluate record = .error e) :
    ∃ key t, test key t ∈ c.nodes ∧ t.evaluate key record = .error e := by
  induction c generalizing p with
  | fixed truth =>
    cases hp
    cases h
  | test key t =>
    cases hp
    exact ⟨key, t, self_mem_nodes _, h⟩
  | custom leaf => cases hp
  | negation operand ih =>
    rw [Predicate.compile] at hp
    obtain ⟨inner, hinner, rfl⟩ := map_eq_ok_iff.mp hp
    change (inner.evaluate record).map (!·) = _ at h
    cases heval : inner.evaluate record with
    | error other =>
      rw [heval] at h
      cases h
      obtain ⟨key, t, hmem, hfails⟩ := ih hinner heval
      exact ⟨key, t, List.mem_cons_of_mem _ hmem, hfails⟩
    | ok truth =>
      rw [heval] at h
      cases h
  | compound j operands ih =>
    rw [Predicate.compile, Predicate.compileAll_eq_mapM] at hp
    obtain ⟨predicates, hpredicates, rfl⟩ := map_eq_ok_iff.mp hp
    obtain ⟨q, hq, hfails⟩ := Junction.exists_mem_of_evaluate_eq_error h
    obtain ⟨operand, hoperand, hcompile⟩ := exists_mem_of_mapM_eq_ok hpredicates hq
    obtain ⟨key, t, hmem, htest⟩ := ih operand hoperand hcompile hfails
    exact ⟨key, t, mem_nodes_compound_iff.mpr (.inr ⟨operand, hoperand, hmem⟩), htest⟩

/-- A node that, if it is a test that fails on the record, fails with one of the given failures. -/
def FailsWith (record : Record) (failures : EvaluationError → Prop) (node : Cond κ) : Prop :=
  ∀ key t e, node = test key t → t.evaluate key record = .error e → failures e

/-- Tests are only replaced by tests that fail alike. -/
theorem failsWith_invariant (record : Record) (failures : EvaluationError → Prop) :
    Invariant (Everywhere (FailsWith (κ := κ) record failures)) := by
  apply Invariant.everywhere
  · exact fun _ _ _ _ ↦ nofun
  · exact fun _ _ _ _ _ _ ↦ nofun
  · exact fun _ _ _ _ _ ↦ nofun
  · intro c key values hmembership hc members
    obtain ⟨t, rfl, -, -⟩ := exists_test_of_membership? hmembership
    have hmember {u : Test} (others : List Value)
        (hu : (test key u : Cond κ).membership? = some (key, others)) :
        FailsWith record failures (test key u : Cond κ) := by
      rintro _ _ e ⟨⟩ hfails
      obtain ⟨u, ⟨⟩, -, hpasses⟩ := exists_test_of_membership? hu
      exact hc key t e rfl (Test.evaluate_eq_error_of_passes hpasses hfails)
    refine memberOf_cases key members ?_ ?_ ?_
    · exact fun _ _ _ _ ↦ nofun
    · exact fun v _ ↦ hmember [v] rfl
    · exact fun _ ↦ hmember (OrderedSet.ofList members).toList rfl

end Cond

end Criteria
