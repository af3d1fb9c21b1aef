import Criteria.Proofs.Reading
import Criteria.Proofs.Scanning

/-!
# Tests of equality and membership

Tests of equality and membership fail only where the field under their key cannot be looked at,
which depends on the key alone. Where it can, such a test is passed if one of the field's values
equals one of the values of the test. Main statements: the truth values of these tests and of those
that take the place of several of them.
-/

namespace Criteria

/-- Whether one of the values of a field equals one of the members of a list. -/
def Value.anyAmong (held members : List Value) : Bool :=
  held.any fun value ↦ members.any (· == value)

namespace Value

/-- Some value equals a member of the list. -/
theorem anyAmong_iff {held members : List Value} :
    anyAmong held members = true ↔
      ∃ value ∈ held, ∃ member ∈ members, (member == value) = true := by
  simp [anyAmong]

/-- No value equals a member of the empty list. -/
@[simp] theorem anyAmong_nil (held : List Value) : anyAmong held [] = false := by
  simp [anyAmong]

/-- A value equals one of several members if it equals the first or one of the others. -/
theorem anyAmong_cons (held : List Value) (member : Value) (members : List Value) :
    anyAmong held (member :: members) = (anyAmong held [member] || anyAmong held members) := by
  rw [Bool.eq_iff_iff, Bool.or_eq_true]
  simp only [anyAmong_iff, List.mem_cons, List.not_mem_nil, or_false, or_and_right, exists_or,
    and_or_left]

/-- More members equal more values. -/
theorem anyAmong_mono {held members others : List Value} (hsubset : members ⊆ others)
    (h : anyAmong held members = true) : anyAmong held others = true := by
  obtain ⟨value, hvalue, member, hmember, heq⟩ := anyAmong_iff.mp h
  exact anyAmong_iff.mpr ⟨value, hvalue, member, hsubset hmember, heq⟩

private theorem anyAmong_ofList (held members : List Value) :
    anyAmong held (OrderedSet.ofList members).toList = anyAmong held members := by
  have hcontains (value : Value) :
      (OrderedSet.ofList members).toList.any (· == value) = members.any (· == value) :=
    OrderedSet.contains_ofList members value
  simp only [anyAmong, hcontains]

end Value

/-! ## Single tests -/

namespace Cond

variable {κ : Type} [CustomCondition κ] {record : Record} {key : RecordKey}

/-- A test of equality or membership is one that each value passes or not, depending on whether it
equals one of the members. -/
theorem exists_test_of_membership? {c : Cond κ} {members : List Value}
    (h : c.membership? = some (key, members)) :
    ∃ t, c = test key t ∧ t.whenMissing = false ∧
      ∀ value, t.passes key.name value = .ok (members.any (· == value)) := by
  unfold membership? at h
  split at h
  · next operand =>
    cases h
    refine ⟨.equal operand, rfl, rfl, ?_⟩
    intro value
    simp [Test.passes, BEq.comm]
  · next others =>
    cases h
    exact ⟨.oneOf others, rfl, rfl, fun _ ↦ rfl⟩
  · cases h

/-- A test of equality or membership looks whether a value of the field is among its members, and
fails as looking at the field does. -/
theorem evaluate_of_membership? {t : Test} {members : List Value}
    (h : (test key t : Cond κ).membership? = some (key, members)) (record : Record) :
    t.evaluate key record = (Value.anyAmong · members) <$> record.held key := by
  obtain ⟨_, ⟨⟩, hmissing, hpasses⟩ := exists_test_of_membership? h
  exact Test.evaluate_eq hmissing hpasses record

/-- A test of equality or membership is read off the values of the field. -/
theorem read?_of_membership? {c : Cond κ} {members : List Value}
    (h : c.membership? = some (key, members)) :
    c.read? record = (record.values? key).map (Value.anyAmong · members) := by
  obtain ⟨t, rfl, hmissing, hpasses⟩ := exists_test_of_membership? h
  exact Test.toOption_evaluate_eq hmissing hpasses record

private theorem holds_of_membership? {c : Cond κ} {members : List Value}
    (h : c.membership? = some (key, members)) :
    c.holds record = Value.anyAmong ((record.values? key).getD []) members := by
  obtain ⟨t, rfl, hmissing, hpasses⟩ := exists_test_of_membership? h
  rw [holds_test, Test.toOption_evaluate_eq hmissing hpasses]
  cases record.values? key with
  | none => rfl
  | some held => rfl

/-- A built test of membership is read off the values of the field. -/
theorem read?_memberOf {held : List Value} (h : record.values? key = some held)
    (members : List Value) :
    (memberOf key members : Cond κ).read? record = some (Value.anyAmong held members) := by
  rw [← Value.anyAmong_ofList]
  refine memberOf_cases key members ?_ ?_ ?_
  · intro hnil
    rw [hnil, Value.anyAmong_nil, read?_fixed]
  · intro v hsingle
    have hequal : (test key (.equal v) : Cond κ).membership? = some (key, [v]) := rfl
    rw [hsingle, read?_of_membership? hequal, h, Option.map_some]
  · intro _
    have honeOf : (test key (.oneOf (.ofList members)) : Cond κ).membership? =
      some (key, (OrderedSet.ofList members).toList) := rfl
    rw [read?_of_membership? honeOf, h, Option.map_some]

private theorem holds_memberOf (members : List Value) :
    (memberOf key members : Cond κ).holds record =
      Value.anyAmong ((record.values? key).getD []) members := by
  rw [← Value.anyAmong_ofList]
  refine memberOf_cases key members ?_ ?_ ?_
  · intro hnil
    rw [hnil, Value.anyAmong_nil, holds_fixed]
  · intro v hsingle
    have hequal : (test key (.equal v) : Cond κ).membership? = some (key, [v]) := rfl
    rw [hsingle, holds_of_membership? hequal]
  · intro _
    exact holds_of_membership? rfl

end Cond

/-! ## Tests in a junction -/

namespace Junction

/-- The truth value of an operand that can be merged, depending on whether a value of the field is
among its members. -/
def verdict (j : Junction) (among : Bool) : Bool := if among then j.absorbing else j.neutral

/-- A disjunction asks whether a value is among the members. -/
@[simp] theorem verdict_or (among : Bool) : or.verdict among = among := by
  cases among <;> rfl

/-- A conjunction asks whether no value is among the members. -/
@[simp] theorem verdict_and (among : Bool) : and.verdict among = !among := by
  cases among <;> rfl

/-- The junction is decided if a value of the field is among the members. -/
theorem verdict_eq_absorbing_iff {j : Junction} {among : Bool} :
    j.verdict among = j.absorbing ↔ among = true := by
  cases j <;> cases among <;> decide

variable {κ : Type} [CustomCondition κ] {record : Record} {key : RecordKey}

/-- An operand that can be merged is read off the values of the field. -/
theorem read?_of_mergeable? {j : Junction} {c : Cond κ} {members : List Value}
    (h : j.mergeable? c = some (key, members)) :
    c.read? record =
      (record.values? key).map fun held ↦ j.verdict (Value.anyAmong held members) := by
  cases j with
  | or =>
    simp only [verdict_or]
    exact Cond.read?_of_membership? h
  | and =>
    obtain ⟨operand, rfl, hmembership⟩ := exists_negation_of_mergeable?_and h
    rw [Cond.read?_negation, Cond.read?_of_membership? hmembership, Option.map_map]
    simp only [verdict_and, Function.comp_def]

/-- An operand that can be merged holds depending on the values of the field. -/
theorem holds_of_mergeable? {j : Junction} {c : Cond κ} {members : List Value}
    (h : j.mergeable? c = some (key, members)) :
    c.holds record = j.verdict (Value.anyAmong ((record.values? key).getD []) members) := by
  cases j with
  | or =>
    rw [verdict_or]
    exact Cond.holds_of_membership? h
  | and =>
    obtain ⟨operand, rfl, hmembership⟩ := exists_negation_of_mergeable?_and h
    rw [Cond.holds_negation, Cond.holds_of_membership? hmembership, verdict_and]

/-- A merged test is read off the values of the field. -/
theorem read?_merged {held : List Value} (h : record.values? key = some held) (j : Junction)
    (members : List Value) : (j.merged key members : Cond κ).read? record =
      some (j.verdict (Value.anyAmong held members)) := by
  cases j with
  | or => rw [merged, Cond.read?_memberOf h, verdict_or]
  | and =>
    rw [merged, Cond.read?_not, Cond.read?_memberOf h, verdict_and]
    rfl

/-- A merged test holds depending on the values of the field. -/
theorem holds_merged (j : Junction) (members : List Value) :
    (j.merged key members : Cond κ).holds record =
      j.verdict (Value.anyAmong ((record.values? key).getD []) members) := by
  cases j with
  | or => rw [merged, Cond.holds_memberOf, verdict_or]
  | and => rw [merged, Cond.holds_not, Cond.holds_memberOf, verdict_and]

end Junction

end Criteria
