import Criteria.Proofs.Factoring
import Criteria.Proofs.Failure
import Criteria.Proofs.Merging
import Criteria.Proofs.Negation

/-!
# Sequences of passes

Passes may be run in any order and as often as one likes, each on the result of the one before.
Factoring may make evaluation fail where it did not, so that two passes in turn are not compared by
their results: what every pass keeps is which records a condition selects when a failing test counts
as one that is not passed, and that all tests of a condition succeed. Main statement: no sequence of
passes changes what is selected.
-/

namespace Criteria

variable {κ : Type} [CustomCondition κ] {record : Record}

namespace Cond

/-- Where a condition holds is kept when parts are rewritten. -/
theorem holds_rewriting (record : Record) :
    Rewriting fun c d : Cond κ ↦ d.holds record = c.holds record where
  refl _ := rfl
  trans hab hbc := hbc.trans hab
  negation h := by rw [holds_not, holds_negation, h]
  compound j operands others h := by
    have hmap : others.map (holds record) = operands.map (holds record) := by
      rw [← List.forall₂_eq_eq_eq, List.forall₂_map_left_iff, List.forall₂_map_right_iff]
      exact h.flip
    rw [holds_make, holds_compound, holds_compound, hmap]

/-- Every sequence of passes leaves alone where a condition holds. -/
theorem holds_runAll {passes : List Pass} {c d : Cond κ}
    (hd : Pass.runAll passes c = .ok (some d)) : d.holds record = c.holds record := by
  have hrewriting := holds_rewriting (κ := κ) record
  apply hrewriting.runAll _ hd
  exact hrewriting.run holds_pullOutShared? holds_mergeOperands holds_negated_junction

/-! ## Conditions whose tests succeed -/

/-- A node that, if it is a test, succeeds on the record. -/
def TestSucceeds (record : Record) (node : Cond κ) : Prop :=
  ∀ key t, node = test key t → ∃ truth, t.evaluate key record = .ok truth

private theorem testSucceeds_iff_failsWith {node : Cond κ} :
    node.TestSucceeds record ↔ node.FailsWith record fun _ ↦ False := by
  constructor
  · intro h key t e hnode hfails
    obtain ⟨truth, htruth⟩ := h key t hnode
    rw [htruth] at hfails
    cases hfails
  · intro h key t hnode
    cases hresult : t.evaluate key record with
    | ok truth => exact ⟨truth, rfl⟩
    | error e => exact (h key t e hnode hresult).elim

/-- Tests that succeed are only replaced by tests that succeed. -/
theorem testSucceeds_invariant (record : Record) :
    Invariant (Everywhere (TestSucceeds (κ := κ) record)) := by
  have hfails : TestSucceeds (κ := κ) record = FailsWith record fun _ ↦ False :=
    funext fun node ↦ propext testSucceeds_iff_failsWith
  rw [hfails]
  exact failsWith_invariant record _

/-- A condition without custom parts, of which all tests succeed, has a truth value. -/
theorem exists_read? {c : Cond κ} (hfree : c.CustomFree) (h : c.Everywhere (TestSucceeds record)) :
    ∃ truth, c.read? record = some truth := by
  obtain ⟨p, hp⟩ := exists_compile hfree
  cases hresult : p.evaluate record with
  | ok truth => exact ⟨truth, (evaluate_eq_ok_iff hp).mp hresult⟩
  | error e =>
    obtain ⟨key, t, hmem, hfails⟩ := exists_test_of_evaluate_eq_error hp hresult
    obtain ⟨truth, htruth⟩ := h _ hmem key t rfl
    rw [htruth] at hfails
    cases hfails

end Cond

/-! ## What is selected -/

namespace Pass

/-- The passes make a condition of the given one, and the predicates of both agree on every record:
they never have different results, and both have a result if every test of the given condition
does. -/
def KeepsSelection (passes : List Pass) (c : Cond κ) : Prop :=
  ∃ d p q, runAll passes c = .ok (some d) ∧
    Predicate.compile c = .ok p ∧ Predicate.compile d = .ok q ∧ ∀ record,
      (∀ truth other, p.evaluate record = .ok truth → q.evaluate record = .ok other →
        truth = other) ∧
      ((∀ key t, .test key t ∈ c.nodes → ∃ truth, t.evaluate key record = .ok truth) →
        ∃ truth, p.evaluate record = .ok truth ∧ q.evaluate record = .ok truth)

/-- No sequence of passes changes what is selected by a condition that can be built without custom
parts. -/
theorem keepsSelection (passes : List Pass) {c : Cond κ} (hreachable : c.Reachable)
    (hfree : c.CustomFree) : KeepsSelection passes c := by
  obtain ⟨d, hd⟩ := Cond.exists_runAll passes hreachable hfree
  have hdfree := Cond.CustomFree.invariant.runAll hfree hd
  obtain ⟨p, hp⟩ := Cond.exists_compile hfree
  obtain ⟨q, hq⟩ := Cond.exists_compile hdfree
  refine ⟨d, p, q, hd, hp, hq, ?_⟩
  intro record
  have hagree {truth other : Bool} (hc : c.read? record = some truth)
      (hother : d.read? record = some other) : truth = other := by
    rw [← Cond.holds_of_read? hc, ← Cond.holds_of_read? hother, Cond.holds_runAll hd]
  simp only [Cond.evaluate_eq_ok_iff hp, Cond.evaluate_eq_ok_iff hq]
  constructor
  · exact fun truth other ↦ hagree
  · intro htests
    have hsucceeds : c.Everywhere (Cond.TestSucceeds record) := by
      rintro node hnode key t rfl
      exact htests key t hnode
    obtain ⟨truth, htruth⟩ := Cond.exists_read? hfree hsucceeds
    obtain ⟨other, hother⟩ := Cond.exists_read? hdfree
      ((Cond.testSucceeds_invariant record).runAll hsucceeds hd)
    rw [← hagree htruth hother] at hother
    exact ⟨truth, htruth, hother⟩

/-- All passes in turn keep what is selected by a disjunction whose operands share a test once the
negation has been pushed down. -/
theorem keepsSelection_all : KeepsSelection [.negation, .factoring, .merging]
    (.or [.and [.test ⟨"a", rfl⟩ .isTrue, .test ⟨"b", rfl⟩ .isNull],
      Cond.not (.or [Cond.not (.test ⟨"a", rfl⟩ .isTrue), .test ⟨"c", rfl⟩ .isTrue])] :
      Cond Empty) := by
  have hitem (key : RecordKey) {t : Test} (h : t.kind ≠ .oneOf) :
      (Cond.test key t : Cond Empty).Reachable := .test key h
  apply keepsSelection
  · apply Cond.Reachable.make
    simp only [List.forall_mem_cons]
    refine ⟨?_, ?_, List.forall_mem_nil _⟩
    · apply Cond.Reachable.make
      simp only [List.forall_mem_cons]
      exact ⟨hitem _ (by decide), hitem _ (by decide), List.forall_mem_nil _⟩
    · apply Cond.Reachable.not
      apply Cond.Reachable.make
      simp only [List.forall_mem_cons]
      exact ⟨.not (hitem _ (by decide)), hitem _ (by decide), List.forall_mem_nil _⟩
  · exact fun _ _ leaf ↦ leaf.elim

end Pass

end Criteria
