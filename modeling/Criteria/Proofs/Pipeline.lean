import Criteria.Proofs.NegationNormalForm

/-!
# Negation normal form in sequences of passes

Factoring and merging rebuild the junctions of a condition and the negations above them. What they
rebuild of a test is the test, and the only negation that they make of their own is that of a merged
test. Main statement: a condition that negates only tests still does after any sequence of passes,
so that the negations need only be pushed down once.
-/

namespace Criteria

variable {κ : Type} [CustomCondition κ]

namespace Cond

/-! ## Steps -/

private theorem negatesTest_junctionInvariant :
    JunctionInvariant (Everywhere (NegatesTest (κ := κ))) where
  make _ _ h := .make (negatesTest_make h) h
  operand h := (everywhere_compound.mp h).2

private theorem everywhere_negatesTest_merged (j : Junction) (key : RecordKey)
    (values : List Value) :
    (j.merged key values : Cond κ).Everywhere NegatesTest := by
  have hfixed (truth : Bool) : (fixed truth : Cond κ).Everywhere NegatesTest :=
    everywhere_fixed.mpr (negatesTest_of_ne nofun)
  have htest (t : Test) : (test key t : Cond κ).Everywhere NegatesTest :=
    everywhere_test.mpr (negatesTest_of_ne nofun)
  cases j with
  | or =>
    refine memberOf_cases (motive := fun c ↦ c.Everywhere NegatesTest) key values ?_ ?_ ?_
    · exact fun _ ↦ hfixed _
    · exact fun _ _ ↦ htest _
    · exact fun _ ↦ htest _
  | and =>
    refine memberOf_cases (motive := fun c ↦ c.not.Everywhere NegatesTest) key values ?_ ?_ ?_
    · exact fun _ ↦ hfixed _
    · exact fun _ _ ↦ everywhere_negatesTest_negated key _
    · exact fun _ ↦ everywhere_negatesTest_negated key _

/-! ## Factoring and merging -/

/-- The second condition is the first one if that is a test, and negates only tests if the first one
does. -/
def KeepsNegatedTests (c d : Cond κ) : Prop :=
  (∀ key t, c = test key t → d = test key t) ∧
    (c.Everywhere NegatesTest → d.Everywhere NegatesTest)

/-- Rebuilding keeps negated tests: what is rebuilt under a negation is the test that was there. -/
theorem keepsNegatedTests_rewriting : Rewriting (KeepsNegatedTests (κ := κ)) where
  refl _ := ⟨fun _ _ ↦ id, id⟩
  trans hab hbc := ⟨fun key t ha ↦ hbc.1 key t (hab.1 key t ha), fun ha ↦ hbc.2 (hab.2 ha)⟩
  negation {operand other} h := by
    refine ⟨nofun, fun hc ↦ ?_⟩
    obtain ⟨key, t, rfl⟩ := hc.self operand rfl
    rw [h.1 key t rfl]
    exact hc
  compound _ _ _ hall :=
    ⟨nofun, negatesTest_junctionInvariant.rebuild (hall.imp fun _ _ h ↦ h.2)⟩

/-- Factoring a condition that negates only tests makes such a condition. -/
theorem everywhere_negatesTest_factor {c : Cond κ} (h : c.Everywhere NegatesTest) :
    c.factor.Everywhere NegatesTest := by
  refine (keepsNegatedTests_rewriting.factor ?_ c).2 h
  intro c d hd
  refine ⟨?_, fun hc ↦ negatesTest_junctionInvariant.pullOutShared? hc hd⟩
  rintro key t rfl
  cases hd

/-- Merging in a condition that negates only tests makes such a condition. -/
theorem everywhere_negatesTest_merge {c : Cond κ} (h : c.Everywhere NegatesTest) :
    c.merge.Everywhere NegatesTest := by
  refine (keepsNegatedTests_rewriting.merge ?_ c).2 h
  intro c
  refine ⟨?_, negatesTest_junctionInvariant.mergeOperands fun _ _ ↦
    everywhere_negatesTest_merged _ _⟩
  rintro key t rfl
  rfl

end Cond

/-! ## Sequences -/

namespace Pass

open Cond

/-- Every pass makes a condition that negates only tests of such a condition, if that can be built.
-/
theorem exists_run_negatesTest (pass : Pass) {c : Cond κ} (hreachable : c.Reachable)
    (h : c.Everywhere NegatesTest) :
    ∃ d, pass.run c = .ok (some d) ∧ d.Everywhere NegatesTest := by
  cases pass with
  | factoring => exact ⟨c.factor, rfl, everywhere_negatesTest_factor h⟩
  | merging => exact ⟨c.merge, rfl, everywhere_negatesTest_merge h⟩
  | negation =>
    refine ⟨c, ?_, h⟩
    rw [run, pushNegations_eq_self hreachable.everywhere_isNormal h]
    rfl

/-- Every sequence of passes makes a condition that negates only tests of such a condition, if that
can be built. -/
theorem exists_runAll_negatesTest (passes : List Pass) {c : Cond κ} (hreachable : c.Reachable)
    (h : c.Everywhere NegatesTest) :
    ∃ d, runAll passes c = .ok (some d) ∧ d.Everywhere NegatesTest := by
  induction passes generalizing c with
  | nil => exact ⟨c, rfl, h⟩
  | cons pass passes ih =>
    obtain ⟨d, hd, hnegates⟩ := pass.exists_run_negatesTest hreachable h
    obtain ⟨e, he, hnegates⟩ := ih (Reachable.invariant.run hreachable hd) hnegates
    exact ⟨e, runAll_cons_eq_ok_iff.mpr ⟨d, hd, he⟩, hnegates⟩

/-- Of a condition that can be built and negates only tests, every sequence of passes makes a
condition that negates only tests. Of any other condition that can be built, every sequence that
starts by pushing the negations down does, if these can be pushed down. -/
theorem runAll_negationNormalForm {c : Cond κ} (h : c.Reachable) (passes : List Pass) :
    (c.Everywhere NegatesTest →
      ∃ d, runAll passes c = .ok (some d) ∧ d.Everywhere NegatesTest) ∧
    ∀ d, Pass.negation.run c = .ok (some d) →
      ∃ e, runAll (.negation :: passes) c = .ok (some e) ∧ e.Everywhere NegatesTest := by
  refine ⟨exists_runAll_negatesTest passes h, fun d hd ↦ ?_⟩
  obtain ⟨pushed, hpushed, heq⟩ := map_eq_ok_iff.mp hd
  cases heq
  obtain ⟨e, he, hnegates⟩ := exists_runAll_negatesTest passes (Reachable.invariant.run h hd)
    (everywhere_negatesTest_pushNegations hpushed)
  exact ⟨e, runAll_cons_eq_ok_iff.mpr ⟨d, hd, he⟩, hnegates⟩

/-- The branches of a disjunction share a test, and a disjunction with two equalities on one key is
negated beside them. Pushed down, merged and factored, the condition negates only tests, and further
passes leave it so. -/
theorem runAll_negationNormalForm_branches : ∃ c : Cond Empty,
    c = .and [.or [
        .and [.test ⟨"restriction", rfl⟩ (.equal (.string "public")),
          .test ⟨"source", rfl⟩ (.equal (.string "abc"))],
        .and [.test ⟨"restriction", rfl⟩ (.equal (.string "public")),
          .test ⟨"source", rfl⟩ (.equal (.string "def"))]],
      .not (.or [.test ⟨"ignored", rfl⟩ .isTrue, .test ⟨"asn", rfl⟩ (.equal (.string "1")),
        .test ⟨"asn", rfl⟩ (.equal (.string "2"))])] ∧
      ∃ d e, runAll [.negation, .merging, .factoring] c = .ok (some d) ∧
        d.Everywhere NegatesTest ∧ runAll [.factoring, .merging, .factoring] d = .ok (some e) ∧
        e.Everywhere NegatesTest := by
  have hpipeline {c : Cond Empty} (hc : c.Reachable) :
      ∃ d e, runAll [.negation, .merging, .factoring] c = .ok (some d) ∧
        d.Everywhere NegatesTest ∧ runAll [.factoring, .merging, .factoring] d = .ok (some e) ∧
        e.Everywhere NegatesTest := by
    obtain ⟨pushed, hpushed⟩ := exists_run .negation hc fun _ _ leaf ↦ leaf.elim
    obtain ⟨d, hd, hnegates⟩ :=
      (runAll_negationNormalForm hc [.merging, .factoring]).2 pushed hpushed
    have hreachable := Reachable.invariant.runAll hc hd
    obtain ⟨e, he, hnegates'⟩ :=
      (runAll_negationNormalForm hreachable [.factoring, .merging, .factoring]).1 hnegates
    exact ⟨d, e, hd, hnegates, he, hnegates'⟩
  have hitem (key : RecordKey) {t : Test} (h : t.kind ≠ .oneOf) :
      (.test key t : Cond Empty).Reachable := .test key h
  refine ⟨_, rfl, hpipeline (.make_pair .and (.make_pair .or ?_ ?_) (.not (.make .or ?_)))⟩
  · exact .make_pair .and (hitem _ (by decide)) (hitem _ (by decide))
  · exact .make_pair .and (hitem _ (by decide)) (hitem _ (by decide))
  · simp only [List.forall_mem_cons]
    exact ⟨hitem _ (by decide), hitem _ (by decide), hitem _ (by decide), List.forall_mem_nil _⟩

end Pass

end Criteria
