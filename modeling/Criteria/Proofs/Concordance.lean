import Criteria.Proofs.Equivalence
import Criteria.Proofs.Optimisation

/-!
# Equal conditions agree

Equal conditions may list their operands in different orders. Evaluation stops at the first operand
that decides a compound or fails, so that it may look at different tests of them. Main statement:
equal conditions never have different results, and both have a result where every test of one of
them succeeds.
-/

namespace Criteria.Cond

variable {κ : Type} [CustomCondition κ]

/-! ## Nodes of equal conditions -/

/-- A property of nodes that equal nodes share holds at every node of a condition if it holds at
every node of an equal one. -/
theorem Everywhere.of_equal {P : Cond κ → Prop} (hP : ∀ {a b}, equal a b = true → P a → P b)
    {c d : Cond κ} (h : equal c d = true) (hc : c.Everywhere P) : d.Everywhere P := by
  suffices equal c d = true ∧ (c.Everywhere P → d.Everywhere P) from this.2 hc
  refine equal_induction ?_ ?_ ?_ ?_ ?_ h
  · exact fun truth ↦ ⟨equal_refl _, id⟩
  · intro key t u htest
    have hequal := equal_test (κ := κ) key htest
    exact ⟨hequal, fun ht ↦ everywhere_test.mpr (hP hequal ht.self)⟩
  · intro a b hleaf
    have hequal : equal (custom a) (custom b) = true := hleaf
    exact ⟨hequal, fun ha ↦ everywhere_custom.mpr (hP hequal ha.self)⟩
  · rintro a b ⟨hequal, hoperand⟩
    refine ⟨hequal, fun ha ↦ everywhere_negation.mpr ⟨hP hequal ha.self, ?_⟩⟩
    exact hoperand (everywhere_negation.mp ha).2
  · intro j as bs hoperands hpairs
    have hequal := equal_compound j hpairs
    refine ⟨hequal, fun has ↦ everywhere_compound.mpr ⟨hP hequal has.self, fun b hb ↦ ?_⟩⟩
    obtain ⟨a, ha, hab⟩ := exists_partner_of_mem_right hpairs hb
    exact (hoperands a ha b hab).2 ((everywhere_compound.mp has).2 a ha)

private theorem CustomFree.of_equal {c d : Cond κ} (h : equal c d = true) (hc : c.CustomFree) :
    d.CustomFree := by
  refine Everywhere.of_equal (fun {a b} hab ha ↦ ?_) h hc
  rintro leaf rfl
  cases a with
  | custom other => exact ha other rfl
  | _ => exact absurd hab Bool.false_ne_true

variable {record : Record}

private theorem everywhere_testSucceeds_of_equal {c d : Cond κ} (h : equal c d = true)
    (hc : c.Everywhere (TestSucceeds record)) : d.Everywhere (TestSucceeds record) := by
  refine Everywhere.of_equal (fun {a b} hab ha ↦ ?_) h hc
  rintro key u rfl
  cases a with
  | test other t =>
    rw [equal, Bool.and_eq_true, beq_iff_eq] at hab
    obtain ⟨rfl, htest⟩ := hab
    rw [← Test.evaluate_congr htest]
    exact ha other t rfl
  | _ => exact absurd hab Bool.false_ne_true

/-! ## Results of equal conditions -/

/-- Equal conditions without custom parts have predicates that never have different results, and
that both have a result if every test of the first condition does. -/
theorem evaluate_concordant {c d : Cond κ} (hfree : c.CustomFree) (h : (c == d) = true) :
    ∃ p q, Predicate.compile c = .ok p ∧ Predicate.compile d = .ok q ∧ ∀ record,
      (∀ truth other, p.evaluate record = .ok truth → q.evaluate record = .ok other →
        truth = other) ∧
      ((∀ key t, .test key t ∈ c.nodes → ∃ truth, t.evaluate key record = .ok truth) →
        ∃ truth, p.evaluate record = .ok truth ∧ q.evaluate record = .ok truth) := by
  rw [beq_def] at h
  have hfree' := hfree.of_equal h
  obtain ⟨p, hp⟩ := exists_compile hfree
  obtain ⟨q, hq⟩ := exists_compile hfree'
  refine ⟨p, q, hp, hq, fun record ↦ ?_⟩
  have hagree {truth other : Bool} (hc : c.read? record = some truth)
      (hd : d.read? record = some other) : truth = other := by
    rw [← holds_of_read? hc, ← holds_of_read? hd, holds_eq_of_equal h]
  simp only [evaluate_eq_ok_iff hp, evaluate_eq_ok_iff hq]
  refine ⟨fun truth other ↦ hagree, fun htests ↦ ?_⟩
  have hsucceeds : c.Everywhere (TestSucceeds record) := by
    rintro node hnode key t rfl
    exact htests key t hnode
  obtain ⟨truth, htruth⟩ := exists_read? hfree hsucceeds
  obtain ⟨other, hother⟩ := exists_read? hfree' (everywhere_testSucceeds_of_equal h hsucceeds)
  rw [← hagree htruth hother] at hother
  exact ⟨truth, htruth, hother⟩

/-- Operands are reordered at two depths and a number is written in another way. Where the one
condition stops at its first operand and the other fails at it, the results do not differ. -/
theorem evaluate_concordant_reordered : ∃ c d : Cond Tagged,
    c = .or [.test ⟨"a", rfl⟩ .isTrue,
      .not (.and [.test ⟨"n", rfl⟩ (.ordered .greater (.number ⟨false, 5, 0⟩)),
        .test ⟨"b", rfl⟩ .isNull])] ∧
      d = .or [.not (.and [.test ⟨"b", rfl⟩ .isNull,
        .test ⟨"n", rfl⟩ (.ordered .greater (.number ⟨false, 50, 1⟩))]),
        .test ⟨"a", rfl⟩ .isTrue] ∧
      ∃ p q, Predicate.compile c = .ok p ∧ Predicate.compile d = .ok q ∧
        (∀ record truth other, p.evaluate record = .ok truth → q.evaluate record = .ok other →
          truth = other) ∧
        ∃ record, p.evaluate record = .ok true ∧ (q.evaluate record).toOption = none := by
  have hitem (key : RecordKey) (t : Test) : (test key t : Cond Tagged).CustomFree :=
    everywhere_test.mpr nofun
  have hpair (j : Junction) {x y : Cond Tagged} (hx : x.CustomFree) (hy : y.CustomFree) :
      (j.make [x, y]).CustomFree := by
    apply CustomFree.invariant.make
    simp only [List.forall_mem_cons]
    exact ⟨hx, hy, List.forall_mem_nil _⟩
  have hresults {c d : Cond Tagged} (hfree : c.CustomFree) (h : (c == d) = true) (record : Record)
      (hc : c.read? record = some true) (hd : d.read? record = none) :
      ∃ p q, Predicate.compile c = .ok p ∧ Predicate.compile d = .ok q ∧
        (∀ record truth other, p.evaluate record = .ok truth → q.evaluate record = .ok other →
          truth = other) ∧
        ∃ record, p.evaluate record = .ok true ∧ (q.evaluate record).toOption = none := by
    obtain ⟨p, q, hp, hq, hagree⟩ := evaluate_concordant hfree h
    refine ⟨p, q, hp, hq, fun record ↦ (hagree record).1, record, ?_, ?_⟩
    · exact (evaluate_eq_ok_iff hp).mpr hc
    · exact (toOption_evaluate hq record).trans hd
  refine ⟨_, _, rfl, rfl, hresults ?_ ?_
    (.ofFields [("a", .single (.boolean true)), ("n", .single (.string "x"))]) ?_ ?_⟩
  · exact hpair .or (hitem _ _) (CustomFree.invariant.not (hpair .and (hitem _ _) (hitem _ _)))
  · decide +kernel
  · decide +kernel
  · decide +kernel

end Criteria.Cond
