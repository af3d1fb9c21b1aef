import Criteria.Predicate
import Criteria.Proofs.Traversal

/-!
# Scanning the values of a field

A test looks at the values of a field from left to right. It stops at the first value that passes,
and fails at the first one that it does not apply to. Main statements: a test that a missing field
does not pass scans the values that the field holds, and what a scan gives when values are added or
when another test is put to them.
-/

namespace Criteria

/-! ## The values of a field -/

/-- The values of the field under a key, if they can be looked at. A missing field has none. -/
def Record.values? (record : Record) (key : RecordKey) : Option (List Value) :=
  match record.get key.name with
  | .ok none => some []
  | .ok (some (.single value)) => some [value]
  | .ok (some (.multi values)) => some values
  | .ok (some .null) | .error _ => none

/-- The values of the field under a key, or why they cannot be looked at. -/
def Record.held (record : Record) (key : RecordKey) : Except EvaluationError (List Value) := do
  match ← record.get key.name with
  | none => .ok []
  | some (.single value) => .ok [value]
  | some (.multi values) => .ok values
  | some .null => .error (.nullValue key.name)

private theorem Record.toOption_held (record : Record) (key : RecordKey) :
    (record.held key).toOption = record.values? key := by
  rw [held, values?]
  rcases record.get key.name with e | _ | _ | value | values <;> rfl

namespace Test

/-! ## Scans -/

variable {t u : Test} {key : String}

/-- A single value is put to the test. -/
@[simp] theorem anyPasses_singleton (t : Test) (key : String) (value : Value) :
    t.anyPasses key [value] = t.passes key value := by
  rw [anyPasses]
  rcases t.passes key value with e | _ | _ <;> rfl

private theorem anyPasses_cons_of_true {value : Value} (h : t.passes key value = .ok true)
    (rest : List Value) : t.anyPasses key (value :: rest) = .ok true := by
  rw [anyPasses, h]
  rfl

private theorem anyPasses_cons_of_false {value : Value} (h : t.passes key value = .ok false)
    (rest : List Value) : t.anyPasses key (value :: rest) = t.anyPasses key rest := by
  rw [anyPasses, h]
  rfl

/-- A scan that gets past its first value comes to a value that passes there or later. -/
theorem anyPasses_cons_eq_ok_iff {value : Value} {rest : List Value} {truth : Bool} :
    t.anyPasses key (value :: rest) = .ok truth ↔
      (t.passes key value = .ok true ∧ truth = true) ∨
        (t.passes key value = .ok false ∧ t.anyPasses key rest = .ok truth) := by
  rcases hvalue : t.passes key value with e | _ | _
  · rw [anyPasses, hvalue]
    exact iff_of_false nofun (by rintro (⟨h, -⟩ | ⟨h, -⟩) <;> cases h)
  · simp [anyPasses_cons_of_false hvalue]
  · simp [anyPasses_cons_of_true hvalue, eq_comm]

/-- A scan is false exactly if no value passes, and the test applies to all of them. -/
theorem anyPasses_eq_ok_false_iff {values : List Value} :
    t.anyPasses key values = .ok false ↔ ∀ value ∈ values, t.passes key value = .ok false := by
  induction values with
  | nil => exact iff_of_true rfl nofun
  | cons value rest ih => simp [anyPasses_cons_eq_ok_iff, ih]

/-- A value that passes is still reached when values are added at the end. -/
theorem anyPasses_append_of_true {values : List Value} (h : t.anyPasses key values = .ok true)
    (more : List Value) : t.anyPasses key (values ++ more) = .ok true := by
  induction values with
  | nil => cases h
  | cons value rest ih =>
    rw [List.cons_append, anyPasses_cons_eq_ok_iff]
    rw [anyPasses_cons_eq_ok_iff] at h
    exact h.imp_right (And.imp_right ih)

/-- If another test applies to every value that the test applies to, and is passed by every value
that passes the test, then it is passed where the test is. -/
theorem anyPasses_mono {values : List Value}
    (htu : ∀ value ∈ values, ∀ truth, t.passes key value = .ok truth →
      ∃ other, u.passes key value = .ok other ∧ (truth = true → other = true))
    (h : t.anyPasses key values = .ok true) : u.anyPasses key values = .ok true := by
  induction values with
  | nil => cases h
  | cons value rest ih =>
    rw [List.forall_mem_cons] at htu
    rw [anyPasses_cons_eq_ok_iff] at h ⊢
    rcases h with ⟨hvalue, -⟩ | ⟨hvalue, hrest⟩
    · obtain ⟨other, hother, htrue⟩ := htu.1 true hvalue
      rw [htrue rfl] at hother
      exact .inl ⟨hother, rfl⟩
    · obtain ⟨other, hother, -⟩ := htu.1 false hvalue
      cases other with
      | true => exact .inl ⟨hother, rfl⟩
      | false => exact .inr ⟨hother, ih htu.2 hrest⟩

/-- A test that each value either passes or does not is passed if one of the values passes. -/
theorem anyPasses_eq {passed : Value → Bool}
    (h : ∀ value, t.passes key value = .ok (passed value)) (values : List Value) :
    t.anyPasses key values = .ok (values.any passed) := by
  induction values with
  | nil => rfl
  | cons value rest ih =>
    cases hvalue : passed value with
    | true => rw [anyPasses_cons_of_true (hvalue ▸ h value), List.any_cons, hvalue, Bool.true_or]
    | false =>
      rw [anyPasses_cons_of_false (hvalue ▸ h value), ih, List.any_cons, hvalue, Bool.false_or]

/-! ## Tests of a record -/

variable {key : RecordKey}

/-- A test that a missing field does not pass scans the values of the field, and fails where these
cannot be looked at. -/
theorem evaluate_eq_held (h : t.whenMissing = false) (record : Record) :
    t.evaluate key record = record.held key >>= t.anyPasses key.name := by
  rw [evaluate, Record.held]
  rcases record.get key.name with e | _ | _ | value | values
  · rfl
  · exact congrArg Except.ok h
  · rfl
  · exact (anyPasses_singleton t key.name value).symm
  · rfl

/-- A missing field is not put to the test. -/
theorem evaluate_of_missing {record : Record} (h : record.get key.name = .ok none) :
    t.evaluate key record = .ok t.whenMissing := by
  rw [evaluate, h]
  rfl

/-- The only value of a field is put to the test. -/
theorem evaluate_of_single {record : Record} {value : Value}
    (h : record.get key.name = .ok (some (.single value))) :
    t.evaluate key record = t.passes key.name value := by
  rw [evaluate, h]
  rfl

/-- A test that applies to every value, and that a missing field does not pass, fails as looking at
the field does. -/
theorem evaluate_eq {passed : Value → Bool} (hmissing : t.whenMissing = false)
    (h : ∀ value, t.passes key.name value = .ok (passed value)) (record : Record) :
    t.evaluate key record = (·.any passed) <$> record.held key := by
  rw [evaluate_eq_held hmissing, funext (anyPasses_eq h)]
  rfl

/-- Such a test has a truth value where the field can be looked at. -/
theorem toOption_evaluate_eq {passed : Value → Bool} (hmissing : t.whenMissing = false)
    (h : ∀ value, t.passes key.name value = .ok (passed value)) (record : Record) :
    (t.evaluate key record).toOption = (record.values? key).map (·.any passed) := by
  rw [evaluate_eq hmissing h, ← Record.toOption_held]
  cases record.held key <;> rfl

end Test

end Criteria
