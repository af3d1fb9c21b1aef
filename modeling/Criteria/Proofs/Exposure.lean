import Criteria.Proofs.Optimisation
import Criteria.Proofs.Unshared

/-!
# What factoring exposes

A branch that is pulled out is looked at before operands that kept evaluation from reaching it, so
that a factored condition may fail on a record on which the given one has a truth value. Main
statement: this is all that may happen. The failure is one of a test of the given condition, and
where there is none the truth value is the same.
-/

namespace Criteria

variable {κ : Type} [CustomCondition κ] {record : Record}

namespace Cond

private theorem factor_eq_of_pullOutShared? {c d : Cond κ} (hnormal : c.Everywhere IsNormal)
    (hoperands : ∀ operands, c.subconditions? = some operands →
      ∀ operand ∈ operands, operand.Everywhere Unshared)
    (hd : c.pullOutShared? = some d) : c.factor = d.factor := by
  cases c with
  | compound j operands =>
    have hmap : operands.map factor = operands.map id := by
      apply List.map_congr_left
      intro operand hmem
      exact factor_eq_self ((everywhere_compound.mp hnormal).2 operand hmem)
        (hoperands operands rfl operand hmem)
    rw [factor_compound, hmap, List.map_id, IsNormal.make_eq hnormal.self, hd]
  | fixed truth => cases hd
  | test key t => cases hd
  | custom leaf => cases hd
  | negation operand => cases hd

/-- Whether a node has a branch to pull out can be told. -/
instance : DecidablePred (Unshared (κ := κ)) := fun node ↦
  inferInstanceAs (Decidable (node.pullOutShared? = none))

/-- A factored condition without custom parts has the truth value of the given one, or fails with
the failure of one of its tests. -/
theorem evaluate_factor {c : Cond κ} (hfree : c.CustomFree) :
    ∃ p q, Predicate.compile c = .ok p ∧ Predicate.compile c.factor = .ok q ∧
      ∀ record truth, p.evaluate record = .ok truth → q.evaluate record = .ok truth ∨
        ∃ key t e, test key t ∈ c.nodes ∧ t.evaluate key record = .error e ∧
          q.evaluate record = .error e := by
  obtain ⟨p, hp⟩ := exists_compile hfree
  obtain ⟨q, hq⟩ := exists_compile (CustomFree.invariant.factor hfree)
  refine ⟨p, q, hp, hq, fun record truth htruth ↦ ?_⟩
  cases hresult : q.evaluate record with
  | ok other =>
    have hholds : c.factor.holds record = c.holds record :=
      (holds_rewriting record).factor holds_pullOutShared? c
    rw [holds_of_read? ((evaluate_eq_ok_iff hq).mp hresult),
      holds_of_read? ((evaluate_eq_ok_iff hp).mp htruth)] at hholds
    exact .inl (congrArg _ hholds)
  | error e =>
    obtain ⟨key, t, hmem, hfails⟩ := exists_test_of_evaluate_eq_error hq hresult
    have hgiven : c.Everywhere (FailsWith record fun e ↦
        ∃ key t, test key t ∈ c.nodes ∧ t.evaluate key record = .error e) := by
      rintro _ hnode key t e rfl hfails
      exact ⟨key, t, hnode, hfails⟩
    have hfactored := (failsWith_invariant record _).factor hgiven
    obtain ⟨key, t, hmem, hfails⟩ := hfactored _ hmem key t e rfl hfails
    exact .inr ⟨key, t, e, hmem, hfails, rfl⟩

/-- Both disjuncts are false by their first test, before the test that they share fails. -/
theorem evaluate_factor_shared : ∃ (c : Cond Empty) (record : Record) (p q : Predicate),
    c = .or [.and [.test ⟨"a", rfl⟩ .isTrue, .test ⟨"x", rfl⟩ .isTrue],
      .and [.test ⟨"b", rfl⟩ .isTrue, .test ⟨"x", rfl⟩ .isTrue]] ∧
    record = .ofFields [("a", .single (.boolean false)), ("b", .single (.boolean false)),
      ("x", .null)] ∧
    Predicate.compile c = .ok p ∧ Predicate.compile c.factor = .ok q ∧
    p.evaluate record = .ok false ∧ (q.evaluate record = .ok false ∨
      ∃ key t e, test key t ∈ c.nodes ∧ t.evaluate key record = .error e ∧
        q.evaluate record = .error e) := by
  obtain ⟨p, q, hp, hq, hresults⟩ := evaluate_factor (c := .or
    [.and [.test ⟨"a", rfl⟩ .isTrue, .test ⟨"x", rfl⟩ .isTrue],
      .and [.test ⟨"b", rfl⟩ .isTrue, .test ⟨"x", rfl⟩ .isTrue]])
    fun _ _ leaf ↦ Empty.elim leaf
  refine ⟨_, _, p, q, rfl, rfl, hp, hq, ?evaluates, hresults _ _ ?evaluates⟩
  rw [evaluate_eq_ok_iff hp]
  decide +kernel

/-- Both disjuncts are false by their first test. The other one, which they share, does not apply to
the field it is put to, and after factoring it is looked at first. -/
theorem evaluate_factor_fails : ∃ (c : Cond Empty) (record : Record) (p q : Predicate)
    (e : EvaluationError),
    c = .or [.and [.test ⟨"a", rfl⟩ .isTrue, .test ⟨"x", rfl⟩ .isTrue],
      .and [.test ⟨"b", rfl⟩ .isTrue, .test ⟨"x", rfl⟩ .isTrue]] ∧
    record = .ofFields [("a", .single (.boolean false)), ("b", .single (.boolean false)),
      ("x", .single (.string "s"))] ∧
    c.Reachable ∧ c.CustomFree ∧ Predicate.compile c = .ok p ∧ Predicate.compile c.factor = .ok q ∧
    p.evaluate record = .ok false ∧ q.evaluate record = .error e := by
  obtain ⟨c, hc⟩ : ∃ c : Cond Empty,
    c = .or [.and [.test ⟨"a", rfl⟩ .isTrue, .test ⟨"x", rfl⟩ .isTrue],
      .and [.test ⟨"b", rfl⟩ .isTrue, .test ⟨"x", rfl⟩ .isTrue]] := ⟨_, rfl⟩
  obtain ⟨record, hrecord⟩ : ∃ record : Record,
    record = .ofFields [("a", .single (.boolean false)), ("b", .single (.boolean false)),
      ("x", .single (.string "s"))] := ⟨_, rfl⟩
  have hreachable : c.Reachable := by
    have htrue (key : RecordKey) : (.test key .isTrue : Cond Empty).Reachable :=
      .test key (by decide)
    rw [hc]
    exact .make_pair .or (.make_pair .and (htrue _) (htrue _))
      (.make_pair .and (htrue _) (htrue _))
  have hfree : c.CustomFree := fun _ _ leaf ↦ leaf.elim
  have hoperands : ∀ operands ∈ c.subconditions?, ∀ operand ∈ operands,
      operand.Everywhere Unshared := by
    rw [hc]
    decide +kernel
  obtain ⟨d, hd⟩ : ∃ d, c.pullOutShared? = some d := by
    apply Option.isSome_iff_exists.mp
    rw [hc]
    decide +kernel
  have hpulled : ∀ d ∈ c.pullOutShared?,
      d.Everywhere Unshared ∧ d.read? record = none := by
    rw [hc, hrecord]
    decide +kernel
  have hfactor : c.factor = d := by
    rw [factor_eq_of_pullOutShared? hreachable.everywhere_isNormal hoperands hd]
    exact factor_eq_self
      (Reachable.invariant.pullOutShared? hreachable hd).everywhere_isNormal (hpulled d hd).1
  obtain ⟨p, hp⟩ := exists_compile hfree
  obtain ⟨q, hq⟩ := exists_compile (CustomFree.invariant.pullOutShared? hfree hd)
  obtain ⟨e, he⟩ : ∃ e, q.evaluate record = .error e := by
    cases hresult : q.evaluate record with
    | error e => exact ⟨e, rfl⟩
    | ok truth =>
      have hread := (evaluate_eq_ok_iff hq).mp hresult
      rw [(hpulled d hd).2] at hread
      cases hread
  refine ⟨c, record, p, q, e, hc, hrecord, hreachable, hfree, hp, hfactor ▸ hq, ?_, he⟩
  rw [evaluate_eq_ok_iff hp, hc, hrecord]
  decide +kernel

end Cond

end Criteria
