import Criteria.Predicate

/-!
# Results of equal tests

Values that are equal may be written differently, and equal sets may list their members in
different orders. Main statement: equal tests have one result on every record, also where they
fail.
-/

namespace Criteria

namespace Value

/-- Values are ordered exactly if they are of one kind. -/
theorem exists_compare?_iff {v w : Value} :
    (∃ order, v.compare? w = some order) ↔ v.kind = w.kind := by
  cases v with
  | boolean a => cases w <;> simp [compare?, kind]
  | number a => cases w <;> simp [compare?, kind]
  | string a => cases w <;> simp [compare?, kind]

/-- Values are equal exactly if neither comes before the other. -/
theorem compare?_eq_eq_iff {v w : Value} : v.compare? w = some .eq ↔ (v == w) = true := by
  cases v with
  | boolean a =>
    cases w with
    | boolean b => exact Option.some_inj.trans Std.LawfulBEqOrd.compare_eq_iff_beq
    | _ => exact iff_of_false nofun Bool.false_ne_true
  | number a =>
    cases w with
    | number b => exact Option.some_inj.trans Std.LawfulBEqOrd.compare_eq_iff_beq
    | _ => exact iff_of_false nofun Bool.false_ne_true
  | string a =>
    cases w with
    | string b => exact Option.some_inj.trans Std.LawfulBEqOrd.compare_eq_iff_beq
    | _ => exact iff_of_false nofun Bool.false_ne_true

/-- Comparing the other way round swaps the order. -/
theorem compare?_swap (v w : Value) : (v.compare? w).map Ordering.swap = w.compare? v := by
  cases v with
  | boolean a =>
    cases w with
    | boolean b => exact congrArg some Std.OrientedOrd.eq_swap.symm
    | _ => rfl
  | number a =>
    cases w with
    | number b => exact congrArg some Std.OrientedOrd.eq_swap.symm
    | _ => rfl
  | string a =>
    cases w with
    | string b => exact congrArg some Std.OrientedOrd.eq_swap.symm
    | _ => rfl

/-- A value stands to equal values in one order. -/
theorem compare?_congr_right {v w : Value} (h : (v == w) = true) (u : Value) :
    u.compare? v = u.compare? w := by
  cases v with
  | boolean a =>
    cases w with
    | boolean b => rw [show a = b from beq_iff_eq.mp h]
    | _ => exact absurd h Bool.false_ne_true
  | number a =>
    cases w with
    | number b =>
      have heq : compare a b = .eq := Std.LawfulBEqOrd.compare_eq_iff_beq.mpr h
      cases u with
      | number c => exact congrArg some (Std.TransCmp.congr_right heq)
      | _ => rfl
    | _ => exact absurd h Bool.false_ne_true
  | string a =>
    cases w with
    | string b => rw [show a = b from beq_iff_eq.mp h]
    | _ => exact absurd h Bool.false_ne_true

/-- Equal values stand to a value in one order. -/
theorem compare?_congr_left {v w : Value} (h : (v == w) = true) (u : Value) :
    v.compare? u = w.compare? u := by
  rw [← compare?_swap u v, ← compare?_swap u w, compare?_congr_right h u]

end Value

namespace Test

/-- A value passes one of two equal tests exactly if it passes the other. -/
theorem passes_congr {t u : Test} (h : (t == u) = true) (key : String) (value : Value) :
    t.passes key value = u.passes key value := by
  refine beq_cases ?_ ?_ ?_ ?_ ?_ ?_ ?_ h
  · intro v w hvalue
    rw [passes, passes, BEq.congr_right hvalue]
  · intro relation v w hvalue
    rw [passes, passes, Value.compare?_congr_right hvalue]
    rfl
  · intro members others hset
    rw [passes, passes, OrderedSet.contains_congr hset]
  · intro low low' high high' hlow hhigh
    rw [passes, passes, Value.compare?_congr_left hlow, Value.compare?_congr_right hhigh]
    rfl
  · exact fun _ ↦ rfl
  · rfl
  · rfl

/-- Equal tests are passed by the same lists of values. -/
theorem anyPasses_congr {t u : Test} (h : (t == u) = true) (key : String) (values : List Value) :
    t.anyPasses key values = u.anyPasses key values := by
  induction values with
  | nil => rfl
  | cons value rest ih => rw [anyPasses, anyPasses, passes_congr h, ih]

/-- Equal tests have one result on every record. -/
theorem evaluate_congr {t u : Test} (h : (t == u) = true) (key : RecordKey) (record : Record) :
    t.evaluate key record = u.evaluate key record := by
  have hmissing : t.whenMissing = u.whenMissing := by
    refine beq_cases ?_ ?_ ?_ ?_ ?_ ?_ ?_ h <;> intros <;> rfl
  have hfield (field : Option FieldValue) :
      t.evaluateField key.name field = u.evaluateField key.name field := by
    rcases field with _ | _ | value | values
    · exact congrArg _ hmissing
    · rfl
    · exact passes_congr h key.name value
    · exact anyPasses_congr h key.name values
  simp only [evaluate, hfield]

end Test

end Criteria
