import Criteria.Proofs.Congruence
import Criteria.Proofs.Refinement
import Criteria.Proofs.Scanning

/-!
# Laws of the ordering tests

A question about the order of a field can be put to it as one test or taken apart into two. Each
test scans the values of the field on its own, so that two tests may stop at different values, or at
one that they do not apply to. Main statement: a relation that includes equality can be taken apart
without losing a result, a range can be if it is met or if there are not several values, and a
single value of the same kind is less than, equal to, or greater than an operand.
-/

namespace Criteria

/-- The relation without equality. -/
def Relation.strict : Relation → Relation
  | greaterOrEqual => greater
  | lessOrEqual => less
  | relation => relation

private theorem Relation.holds_eq_strict {relation : Relation} (h : relation.holds .eq = true)
    (order : Ordering) :
    relation.holds order = (order == .eq || relation.strict.holds order) := by
  cases relation with
  | greater => cases h
  | less => cases h
  | greaterOrEqual => cases order <;> rfl
  | lessOrEqual => cases order <;> rfl

private theorem Relation.holds_strict_eq (relation : Relation) :
    relation.strict.holds .eq = false := by
  cases relation <;> rfl

namespace Test

variable {key : RecordKey} {record : Record} {relation : Relation} {v low high value : Value}
  {truth : Bool}

/-! ## Values that are put to a test -/

/-- An ordering test applies to the values that are ordered with its operand. -/
theorem passes_ordered_eq_ok_iff {key : String} :
    (ordered relation v).passes key value = .ok truth ↔
      ∃ order, value.compare? v = some order ∧ relation.holds order = truth := by
  rw [passes]
  cases value.compare? v with
  | none => simp
  | some order => simp

private theorem passes_between_eq_ok_iff {key : String} :
    (between low high).passes key value = .ok truth ↔
    ∃ lower upper, low.compare? value = some lower ∧ value.compare? high = some upper ∧
      (lower.isLE && upper.isLE) = truth := by
  rw [passes]
  cases low.compare? value with
  | none => simp
  | some lower =>
    cases value.compare? high with
    | none => simp
    | some upper => simp

private theorem passes_ordered_of_beq {key : String} (hequal : relation.holds .eq = true)
    (h : (value == v) = true) : (ordered relation v).passes key value = .ok true :=
  passes_ordered_eq_ok_iff.mpr ⟨.eq, Value.compare?_eq_eq_iff.mpr h, hequal⟩

/-- Without equality, a relation holds for the same values except those that equal the operand. -/
theorem passes_strict {key : String} (hequal : relation.holds .eq = true)
    (h : (ordered relation v).passes key value = .ok truth) :
    (ordered relation.strict v).passes key value = .ok (truth && !(value == v)) := by
  obtain ⟨order, horder, rfl⟩ := passes_ordered_eq_ok_iff.mp h
  have hbeq : (value == v) = (order == .eq) := by
    rw [Bool.eq_iff_iff, ← Value.compare?_eq_eq_iff, horder, Option.some_inj, beq_iff_eq]
  refine passes_ordered_eq_ok_iff.mpr ⟨order, horder, ?_⟩
  rw [hbeq, Relation.holds_eq_strict hequal]
  cases horder : order == .eq with
  | true => rw [beq_iff_eq.mp horder, Relation.holds_strict_eq, Bool.not_true, Bool.and_false]
  | false => rw [Bool.false_or, Bool.not_false, Bool.and_true]

private theorem exists_passes_bounds {key : String}
    (h : (between low high).passes key value = .ok truth) :
    ∃ lower upper, (ordered .greaterOrEqual low).passes key value = .ok lower ∧
      (ordered .lessOrEqual high).passes key value = .ok upper ∧ (lower && upper) = truth := by
  obtain ⟨lower, upper, hlower, hupper, rfl⟩ := passes_between_eq_ok_iff.mp h
  refine ⟨lower.isLE, upper.isLE, ?_, ?_, rfl⟩
  · refine passes_ordered_eq_ok_iff.mpr ⟨lower.swap, ?_, ?_⟩
    · rw [← Value.compare?_swap, hlower, Option.map_some]
    · exact Ordering.isGE_swap
  · exact passes_ordered_eq_ok_iff.mpr ⟨upper, hupper, rfl⟩

/-! ## Scans -/

private theorem eq_true_of_anyPasses {key : String} {values : List Value}
    (hequal : relation.holds .eq = true)
    (h : (ordered relation v).anyPasses key values = .ok truth)
    (hmatch : values.any (· == v) = true) : truth = true := by
  cases truth with
  | true => rfl
  | false =>
    obtain ⟨value, hmem, hbeq⟩ := List.any_eq_true.mp hmatch
    have hpasses := anyPasses_eq_ok_false_iff.mp h value hmem
    rw [passes_ordered_of_beq hequal hbeq] at hpasses
    cases hpasses

/-- Where no value equals the operand, a scan for the relation without equality ends alike. -/
theorem anyPasses_strict {key : String} {values : List Value}
    (hequal : relation.holds .eq = true)
    (h : (ordered relation v).anyPasses key values = .ok truth)
    (hmatch : values.any (· == v) = false) :
    (ordered relation.strict v).anyPasses key values = .ok truth := by
  have hpointwise (value : Value) (hmem : value ∈ values) (truth : Bool)
      (hpasses : (ordered relation v).passes key value = .ok truth) :
      (ordered relation.strict v).passes key value = .ok truth := by
    have hdifferent := Bool.eq_false_iff.mpr (List.any_eq_false.mp hmatch value hmem)
    rw [passes_strict hequal hpasses, hdifferent, Bool.not_false, Bool.and_true]
  cases truth with
  | true =>
    exact anyPasses_mono
      (fun value hmem truth hpasses ↦ ⟨truth, hpointwise value hmem truth hpasses, id⟩) h
  | false =>
    rw [anyPasses_eq_ok_false_iff] at h ⊢
    exact fun value hmem ↦ hpointwise value hmem false (h value hmem)

/-! ## Records that are put to a test -/

/-- Where a relation that includes equality has a result, the field equals the operand, and the
result is true, or it does not, and the relation without equality has the result. -/
theorem evaluate_strict (hequal : relation.holds .eq = true)
    (h : (ordered relation v).evaluate key record = .ok truth) :
    ((equal v).evaluate key record = .ok true ∧ truth = true) ∨
      ((equal v).evaluate key record = .ok false ∧
        (ordered relation.strict v).evaluate key record = .ok truth) := by
  rw [evaluate_eq_held rfl] at h
  obtain ⟨held, hheld, hscan⟩ := bind_eq_ok_iff.mp h
  have hevaluate (t : Test) (hmissing : t.whenMissing = false) :
      t.evaluate key record = t.anyPasses key.name held := by
    rw [evaluate_eq_held hmissing, hheld]
    rfl
  have hany : (equal v).anyPasses key.name held = .ok (held.any (· == v)) :=
    anyPasses_eq (fun _ ↦ rfl) held
  rw [hevaluate (equal v) rfl, hevaluate (ordered relation.strict v) rfl, hany]
  cases hmatch : held.any (· == v) with
  | true => exact .inl ⟨rfl, eq_true_of_anyPasses hequal hscan hmatch⟩
  | false => exact .inr ⟨rfl, anyPasses_strict hequal hscan hmatch⟩

/-- A field that lies in a range lies on the right side of both bounds. -/
theorem evaluate_bounds (h : (between low high).evaluate key record = .ok true) :
    (ordered .greaterOrEqual low).evaluate key record = .ok true ∧
      (ordered .lessOrEqual high).evaluate key record = .ok true := by
  rw [evaluate_eq_held rfl] at h
  obtain ⟨held, hheld, hscan⟩ := bind_eq_ok_iff.mp h
  rw [evaluate_eq_held rfl, evaluate_eq_held rfl, hheld]
  constructor
  · refine anyPasses_mono (fun value _ truth hpasses ↦ ?_) hscan
    obtain ⟨lower, upper, hlower, -, rfl⟩ := exists_passes_bounds hpasses
    exact ⟨lower, hlower, fun hboth ↦ (Bool.and_eq_true_iff.mp hboth).1⟩
  · refine anyPasses_mono (fun value _ truth hpasses ↦ ?_) hscan
    obtain ⟨lower, upper, -, hupper, rfl⟩ := exists_passes_bounds hpasses
    exact ⟨upper, hupper, fun hboth ↦ (Bool.and_eq_true_iff.mp hboth).2⟩

private theorem exists_evaluate_bounds
    (hfield : record.get key.name = .ok none ∨
      ∃ value, record.get key.name = .ok (some (.single value)))
    (h : (between low high).evaluate key record = .ok truth) :
    ∃ lower upper, (ordered .greaterOrEqual low).evaluate key record = .ok lower ∧
      (ordered .lessOrEqual high).evaluate key record = .ok upper ∧ (lower && upper) = truth := by
  rcases hfield with hmissing | ⟨value, hsingle⟩
  · rw [evaluate_of_missing hmissing] at h
    exact ⟨false, false, evaluate_of_missing hmissing, evaluate_of_missing hmissing,
      Except.ok.inj h⟩
  · rw [evaluate_of_single hsingle] at h
    rw [evaluate_of_single hsingle, evaluate_of_single hsingle]
    exact exists_passes_bounds h

/-- A single value stands to an operand of its kind in one order, which tells the results of all
ordering tests and of equality. -/
theorem exists_order_of_single (hsingle : record.get key.name = .ok (some (.single value)))
    (hkind : value.kind = v.kind) : ∃ order : Ordering,
      (∀ relation, (ordered relation v).evaluate key record = .ok (relation.holds order)) ∧
      (equal v).evaluate key record = .ok (order == .eq) := by
  obtain ⟨order, horder⟩ := Value.exists_compare?_iff.mpr hkind
  refine ⟨order, fun relation ↦ ?_, ?_⟩
  · rw [evaluate_of_single hsingle]
    exact passes_ordered_eq_ok_iff.mpr ⟨order, horder, rfl⟩
  · rw [evaluate_of_single hsingle, passes]
    congr 1
    rw [Bool.eq_iff_iff, ← Value.compare?_eq_eq_iff, horder, Option.some_inj, beq_iff_eq]

end Test

/-! ## Conditions -/

namespace Cond

variable {κ : Type} [CustomCondition κ] {key : RecordKey} {record : Record}

private theorem evaluatesTo_make_tests {j : Junction} {t u : Test} {truth : Bool}
    (h : j.combine? [(t.evaluate key record).toOption, (u.evaluate key record).toOption] =
      some truth) : (j.make [test key t, test key u] : Cond κ).EvaluatesTo record truth := by
  apply evaluatesTo_make _ h
  have htest (t : Test) : (test key t : Cond κ).CustomFree := everywhere_test.mpr nofun
  simp only [List.forall_mem_cons]
  exact ⟨htest t, htest u, List.forall_mem_nil _⟩

/-- A relation that includes equality can be asked for as equality or the relation without it. -/
theorem evaluatesTo_or_strict {relation : Relation} (hequal : relation.holds .eq = true) {v : Value}
    {truth : Bool} (h : (test key (.ordered relation v) : Cond κ).EvaluatesTo record truth) :
    (or [test key (.equal v), test key (.ordered relation.strict v)] : Cond κ).EvaluatesTo
      record truth := by
  apply evaluatesTo_make_tests
  rcases Test.evaluate_strict hequal (evaluatesTo_test.mp h) with ⟨hv, rfl⟩ | ⟨hv, hstrict⟩
  · rw [hv]
    rfl
  · rw [hv, hstrict]
    exact Junction.combine?_singleton .or (some truth)

/-- Both bounds of a range can be asked for in turn. -/
theorem evaluatesTo_and_bounds {low high : Value} {lower upper : Bool}
    (hlower : (Test.ordered .greaterOrEqual low).evaluate key record = .ok lower)
    (hupper : (Test.ordered .lessOrEqual high).evaluate key record = .ok upper) :
    (and [test key (.ordered .greaterOrEqual low), test key (.ordered .lessOrEqual high)] :
      Cond κ).EvaluatesTo record (lower && upper) := by
  apply evaluatesTo_make_tests
  rw [hlower, hupper]
  cases lower <;> cases upper <;> rfl

private theorem evaluatesTo_not_test {t : Test} {truth : Bool}
    (h : t.evaluate key record = .ok truth) :
    (Cond.not (test key t) : Cond κ).EvaluatesTo record (!truth) := by
  have hfree : (test key t : Cond κ).CustomFree := everywhere_test.mpr nofun
  rw [evaluatesTo_iff (CustomFree.invariant.not hfree), read?_not, read?_test, h]
  rfl

/-- The laws of the ordering tests of a field. Where a relation that includes equality has a result,
equality or the relation without it has the result, also for a field of several values. A field in a
range lies between the bounds, and one outside of it does not if it is missing or has a single
value. Of less, equal and greater exactly one is true for a single value of the operand's kind, and
not being less is being greater or equal. -/
theorem ordering_laws (key : RecordKey) (v low high : Value) (record : Record) :
    (∀ truth, (test key (.ordered .greaterOrEqual v) : Cond κ).EvaluatesTo record truth →
      (or [test key (.equal v), test key (.ordered .greater v)] : Cond κ).EvaluatesTo
        record truth) ∧
    (∀ truth, (test key (.ordered .lessOrEqual v) : Cond κ).EvaluatesTo record truth →
      (or [test key (.equal v), test key (.ordered .less v)] : Cond κ).EvaluatesTo
        record truth) ∧
    ((test key (.between low high) : Cond κ).EvaluatesTo record true →
      (and [test key (.ordered .greaterOrEqual low), test key (.ordered .lessOrEqual high)] :
        Cond κ).EvaluatesTo record true) ∧
    ((record.get key.name = .ok none ∨ ∃ value, record.get key.name = .ok (some (.single value))) →
      (test key (.between low high) : Cond κ).EvaluatesTo record false →
      (and [test key (.ordered .greaterOrEqual low), test key (.ordered .lessOrEqual high)] :
        Cond κ).EvaluatesTo record false) ∧
    ∀ value, record.get key.name = .ok (some (.single value)) → value.kind = v.kind →
      (∃ less equal greater : Bool,
        (test key (.ordered .less v) : Cond κ).EvaluatesTo record less ∧
        (test key (.equal v) : Cond κ).EvaluatesTo record equal ∧
        (test key (.ordered .greater v) : Cond κ).EvaluatesTo record greater ∧
        [less, equal, greater].count true = 1) ∧
      ∃ truth, (Cond.not (test key (.ordered .less v)) : Cond κ).EvaluatesTo record truth ∧
        (test key (.ordered .greaterOrEqual v) : Cond κ).EvaluatesTo record truth := by
  refine ⟨fun truth ↦ evaluatesTo_or_strict rfl, fun truth ↦ evaluatesTo_or_strict rfl, ?_, ?_, ?_⟩
  · intro h
    obtain ⟨hlower, hupper⟩ := Test.evaluate_bounds (evaluatesTo_test.mp h)
    exact evaluatesTo_and_bounds hlower hupper
  · intro hfield h
    obtain ⟨lower, upper, hlower, hupper, hboth⟩ :=
      Test.exists_evaluate_bounds hfield (evaluatesTo_test.mp h)
    rw [← hboth]
    exact evaluatesTo_and_bounds hlower hupper
  · intro value hsingle hkind
    obtain ⟨order, hordered, hequal⟩ := Test.exists_order_of_single hsingle hkind
    simp only [evaluatesTo_test]
    refine ⟨⟨_, _, _, hordered .less, hequal, hordered .greater, ?_⟩,
      _, evaluatesTo_not_test (hordered .less), ?_⟩
    · cases order <;> rfl
    · rw [hordered]
      cases order <;> rfl

/-- The number is among several values, in another spelling and before one that has no order with
it. The same number stands alone in a range in which it does not lie. -/
theorem ordering_laws_spelled : ∃ (several single : Record) (five : Value),
    several = .ofFields
        [("n", .multi [.number ⟨false, 3, 0⟩, .number ⟨false, 500, 2⟩, .string "x"])] ∧
      single = .ofFields [("n", .single (.number ⟨false, 50, 1⟩))] ∧ five = .number ⟨false, 5, 0⟩ ∧
      (test ⟨"n", rfl⟩ (.ordered .greaterOrEqual five) : Cond Empty).EvaluatesTo several true ∧
      (or [test ⟨"n", rfl⟩ (.equal five), test ⟨"n", rfl⟩ (.ordered .greater five)] :
        Cond Empty).EvaluatesTo several true ∧
      (and [test ⟨"n", rfl⟩ (.ordered .greaterOrEqual five),
        test ⟨"n", rfl⟩ (.ordered .lessOrEqual five)] : Cond Empty).EvaluatesTo several true ∧
      (and [test ⟨"n", rfl⟩ (.ordered .greaterOrEqual (.number ⟨false, 6, 0⟩)),
        test ⟨"n", rfl⟩ (.ordered .lessOrEqual five)] : Cond Empty).EvaluatesTo single false ∧
      ∃ truth, (Cond.not (test ⟨"n", rfl⟩ (.ordered .less five)) : Cond Empty).EvaluatesTo
          single truth ∧
        (test ⟨"n", rfl⟩ (.ordered .greaterOrEqual five) : Cond Empty).EvaluatesTo
          single truth := by
  refine ⟨_, _, _, rfl, rfl, rfl, ?atLeast, ?_, ?_, ?_, ?_⟩
  · exact evaluatesTo_test.mpr rfl
  · exact (ordering_laws _ _ default default _).1 true ?atLeast
  · exact (ordering_laws _ default _ _ _).2.2.1 (evaluatesTo_test.mpr rfl)
  · exact (ordering_laws _ default _ _ _).2.2.2.1 (.inr ⟨_, rfl⟩) (evaluatesTo_test.mpr rfl)
  · have hlaws := ordering_laws (κ := Empty) ⟨"n", rfl⟩ (.number ⟨false, 5, 0⟩) default default
      (.ofFields [("n", .single (.number ⟨false, 50, 1⟩))])
    exact (hlaws.2.2.2.2 (.number ⟨false, 50, 1⟩) rfl rfl).2

end Cond

end Criteria
