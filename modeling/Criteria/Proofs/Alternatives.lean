import Criteria.Field
import Criteria.Pass
import Criteria.Proofs.Acceptance
import Criteria.Proofs.Membership
import Criteria.Proofs.PassCongruence
import Criteria.Proofs.Settled

/-!
# Alternatives and membership

That a field equals one of several values can be asked by a disjunction of equalities or by a test
of membership. The disjunction keeps different conditions and stops at the first one that holds, the
test keeps different values and looks them up at once. Main statement: the two agree on every
record, also in how they fail, and merging makes the one into the other.
-/

namespace Criteria

variable {κ : Type} [CustomCondition κ]

/-! ## Disjunctions of equalities -/

namespace Cond

variable {key : RecordKey}

private theorem beq_test_equal (key : RecordKey) (v w : Value) :
    ((test key (.equal v) : Cond κ) == test key (.equal w)) = (v == w) := by
  rw [beq_def, equal, beq_self_eq_true, Bool.true_and]
  rfl

/-- The equalities of a field with the values of a list. -/
def equalities (key : RecordKey) (values : List Value) : List (Cond κ) :=
  values.map fun v ↦ test key (.equal v)

/-- The equality of a field with one of the values of a list, as a disjunction. -/
def alternatives (key : RecordKey) (values : List Value) : Cond κ := .or (equalities key values)

private theorem toList_flatten_equalities (key : RecordKey) (values : List Value) :
    (Junction.or.flatten (equalities (κ := κ) key values)).toList =
      equalities key (OrderedSet.ofList values).toList := by
  rw [equalities, equalities, ← OrderedSet.toList_ofList_map (beq_test_equal key),
    Junction.flatten, List.flatMap_map]
  congr
  exact List.map_eq_flatMap.symm

private theorem isDecided_equalities (key : RecordKey) (values : List Value) :
    Junction.or.isDecided (Junction.or.flatten (equalities (κ := κ) key values)) = false := by
  have htests : ∀ c ∈ (Junction.or.flatten (equalities (κ := κ) key values)).toList,
      ∃ v, c = test key (.equal v) := by
    rw [toList_flatten_equalities, equalities, List.forall_mem_map]
    exact fun v _ ↦ ⟨v, rfl⟩
  have hcontains {d : Cond κ} (hd : ∀ v, (test key (.equal v) == d) = false) :
      (Junction.or.flatten (equalities key values)).contains d = false := by
    apply List.any_eq_false.mpr
    intro c hc
    obtain ⟨v, rfl⟩ := htests c hc
    rw [hd v]
    exact Bool.false_ne_true
  rw [Junction.isDecided, Bool.or_eq_false_iff]
  constructor
  · exact hcontains fun v ↦ by rw [beq_def]; rfl
  · apply List.any_eq_false.mpr
    intro c hc
    obtain ⟨v, rfl⟩ := htests c hc
    rw [hcontains fun w ↦ by rw [beq_def]; rfl]
    exact Bool.false_ne_true

private theorem alternatives_eq_fixed {values : List Value}
    (h : (OrderedSet.ofList values).toList = []) :
    (alternatives key values : Cond κ) = fixed false := by
  apply Junction.make_eq_neutral
  rw [toList_flatten_equalities, h]
  rfl

private theorem alternatives_eq_equal {values : List Value} {v : Value}
    (h : (OrderedSet.ofList values).toList = [v]) :
    (alternatives key values : Cond κ) = test key (.equal v) := by
  apply Junction.make_eq_only
  rw [toList_flatten_equalities, h]
  rfl

private theorem alternatives_eq_compound {values : List Value}
    (h : 2 ≤ (OrderedSet.ofList values).toList.length) :
    (alternatives key values : Cond κ) =
      compound .or (equalities key (OrderedSet.ofList values).toList) := by
  rw [← toList_flatten_equalities]
  apply Junction.make_eq_compound
  · rwa [toList_flatten_equalities, equalities, List.length_map]
  · exact isDecided_equalities key values

private theorem alternatives_eq_memberOf_or (key : RecordKey) (values : List Value) :
    (alternatives key values : Cond κ) = memberOf key values ∨
      2 ≤ (OrderedSet.ofList values).toList.length := by
  refine memberOf_cases (motive := fun c ↦ (alternatives key values : Cond κ) = c ∨ _) key values
    ?_ ?_ ?_
  · exact fun hnil ↦ .inl (alternatives_eq_fixed hnil)
  · exact fun v hsingle ↦ .inl (alternatives_eq_equal hsingle)
  · exact .inr

end Cond

/-! ## Evaluation -/

namespace Predicate

/-- The equalities of a field as predicates. -/
def equalities (key : RecordKey) (values : List Value) : List Predicate :=
  values.map fun v ↦ ⟨(Test.equal v).evaluate key⟩

private theorem compileAll_equalities (key : RecordKey) (values : List Value) :
    compileAll (Cond.equalities (κ := κ) key values) = .ok (equalities key values) := by
  induction values with
  | nil => rfl
  | cons v rest ih =>
    change compileAll (.test key (.equal v) :: Cond.equalities key rest) = _
    rw [compileAll, compile, ih]
    rfl

private theorem compile_equalities (j : Junction) (key : RecordKey) (values : List Value) :
    compile (.compound j (Cond.equalities (κ := κ) key values)) =
      .ok ⟨fun record ↦ j.evaluate record (equalities key values)⟩ := by
  rw [compile, compileAll_equalities]
  rfl

end Predicate

namespace Junction

/-- A disjunction of equalities with at least one value looks whether a value of the field is among
these, and fails as looking at the field does. -/
theorem evaluate_equalities (record : Record) (key : RecordKey) {values : List Value}
    (hne : values ≠ []) : or.evaluate record (Predicate.equalities key values) =
      (Value.anyAmong · values) <$> record.held key := by
  have hequal (v : Value) : (Test.equal v).evaluate key record =
      (Value.anyAmong · [v]) <$> record.held key :=
    Cond.evaluate_of_membership? (κ := Empty) rfl record
  have hcons (v : Value) (rest : List Value) :
      or.evaluate record (Predicate.equalities key (v :: rest)) = (do
        if (← (Test.equal v).evaluate key record) = or.absorbing then return or.absorbing
        or.evaluate record (Predicate.equalities key rest)) := rfl
  cases hheld : record.held key with
  | error e =>
    cases values with
    | nil => exact absurd rfl hne
    | cons v rest =>
      rw [hcons, hequal, hheld]
      rfl
  | ok held =>
    -- The first failure is out of the question now, and no value at all gives false as well.
    clear hne
    induction values with
    | nil => exact congrArg Except.ok (Value.anyAmong_nil held).symm
    | cons v rest ih =>
      rw [hcons, hequal, hheld, ih]
      change (if Value.anyAmong held [v] = true then .ok true
        else .ok (Value.anyAmong held rest)) = Except.ok (Value.anyAmong held (v :: rest))
      rw [Value.anyAmong_cons held v rest]
      cases Value.anyAmong held [v] <;> rfl

end Junction

namespace Cond

/-- A disjunction of equalities and the test of membership are compiled to predicates that agree on
every record. -/
theorem exists_compile_alternatives (key : RecordKey) (values : List Value) :
    ∃ p q, Predicate.compile (alternatives key values : Cond κ) = .ok p ∧
      Predicate.compile (memberOf key values : Cond κ) = .ok q ∧
      ∀ record, p.evaluate record = q.evaluate record := by
  rcases alternatives_eq_memberOf_or (κ := κ) key values with heq | hseveral
  · obtain ⟨p, hp⟩ : ∃ p, Predicate.compile (memberOf key values : Cond κ) = .ok p := by
      refine memberOf_cases (motive := fun c ↦ ∃ p, Predicate.compile c = .ok p) key values ?_ ?_ ?_
      · exact fun _ ↦ ⟨_, rfl⟩
      · exact fun _ _ ↦ ⟨_, rfl⟩
      · exact fun _ ↦ ⟨_, rfl⟩
    exact ⟨p, p, heq ▸ hp, hp, fun _ ↦ rfl⟩
  · have hne : (OrderedSet.ofList values).toList ≠ [] := by
      intro hnil
      rw [hnil] at hseveral
      cases hseveral
    rw [alternatives_eq_compound hseveral, memberOf_eq_oneOf hseveral]
    refine ⟨_, _, Predicate.compile_equalities .or key _, rfl, fun record ↦ ?_⟩
    exact (Junction.evaluate_equalities record key hne).trans
      (evaluate_of_membership? (κ := κ) rfl record).symm

end Cond

/-! ## Merging -/

namespace Junction

variable {valuesOn : RecordKey → List Value} {seen : List RecordKey} {key : RecordKey}

private theorem mergeFrom_equalities_of_mem (h : key ∈ seen) (values : List Value) :
    or.mergeFrom valuesOn seen (Cond.equalities (κ := κ) key values) = [] := by
  induction values with
  | nil => rfl
  | cons v rest ih =>
    rw [Cond.equalities, List.map_cons, mergeFrom]
    change (if key ∈ seen then _ else _) = []
    rw [if_pos h]
    exact ih

private theorem mergeFrom_equalities_of_not_mem (h : key ∉ seen) {values : List Value}
    (hne : values ≠ []) :
    or.mergeFrom valuesOn seen (Cond.equalities (κ := κ) key values) =
      [.memberOf key (valuesOn key)] := by
  cases values with
  | nil => exact absurd rfl hne
  | cons v rest =>
    rw [Cond.equalities, List.map_cons, mergeFrom]
    change (if key ∈ seen then _ else or.merged key (valuesOn key) ::
      or.mergeFrom valuesOn (key :: seen) (Cond.equalities key rest)) = _
    rw [if_neg h, mergeFrom_equalities_of_mem List.mem_cons_self, merged]

private theorem valuesOn_equalities (key : RecordKey) (values : List Value) :
    or.valuesOn key (Cond.equalities (κ := κ) key values) = values := by
  rw [Junction.valuesOn, Cond.equalities, List.flatMap_map]
  simp [mergeable?, Cond.membership?]

private theorem mergeableKeys_equalities (key : RecordKey) (values : List Value) :
    or.mergeableKeys (Cond.equalities (κ := κ) key values) =
      List.replicate values.length key := by
  induction values with
  | nil => rfl
  | cons v rest ih =>
    rw [Cond.equalities, List.map_cons, mergeableKeys_cons_of_eq_some rfl]
    exact congrArg (key :: ·) ih

end Junction

namespace Cond

/-- A test of membership has nothing to merge. -/
theorem merge_memberOf (key : RecordKey) (values : List Value) :
    (memberOf key values : Cond κ).merge = memberOf key values := by
  refine memberOf_cases (motive := fun c ↦ c.merge = c) key values ?_ ?_ ?_
  · exact fun _ ↦ rfl
  · exact fun _ _ ↦ rfl
  · exact fun _ ↦ rfl

private theorem memberOf_toList_ofList (key : RecordKey) (values : List Value) :
    (memberOf key (OrderedSet.ofList values).toList : Cond κ) = memberOf key values := by
  rw [memberOf, OrderedSet.ofList_toList]
  rfl

private theorem make_or_memberOf (key : RecordKey) (values : List Value) :
    Junction.or.make [(memberOf key values : Cond κ)] = memberOf key values := by
  refine memberOf_cases (motive := fun c ↦ Junction.or.make [c] = c) key values ?_ ?_ ?_
  · exact fun _ ↦ rfl
  · exact fun _ _ ↦ rfl
  · exact fun _ ↦ rfl

private theorem mergeOperands_equalities (key : RecordKey) {values : List Value}
    (h : 2 ≤ values.length) :
    (compound .or (equalities key values) : Cond κ).mergeOperands = memberOf key values := by
  have hrepeated : ¬(Junction.or.mergeableKeys (equalities (κ := κ) key values)).Nodup := by
    rw [Junction.mergeableKeys_equalities, List.nodup_replicate]
    omega
  have hne : values ≠ [] := by
    rintro rfl
    cases h
  rw [mergeOperands, if_neg hrepeated, Junction.mergeOperands,
    Junction.mergeFrom_equalities_of_not_mem List.not_mem_nil hne, Junction.valuesOn_equalities,
    make_or_memberOf]

private theorem mergeAll_equalities (key : RecordKey) (values : List Value) :
    mergeAll (equalities (κ := κ) key values) = equalities key values := by
  rw [mergeAll_eq_map, equalities, List.map_map]
  rfl

private theorem reachable_alternatives (key : RecordKey) (values : List Value) :
    (alternatives key values : Cond κ).Reachable := by
  apply Reachable.make
  rw [equalities, List.forall_mem_map]
  exact fun v _ ↦ .test key nofun

/-- Merging makes a disjunction of equalities into the test of membership. -/
theorem merge_alternatives (key : RecordKey) (values : List Value) :
    (alternatives key values : Cond κ).merge = memberOf key values := by
  rcases alternatives_eq_memberOf_or (κ := κ) key values with heq | hseveral
  · rw [heq, merge_memberOf]
  · have hnormal := (reachable_alternatives (κ := κ) key values).everywhere_isNormal.self
    rw [alternatives_eq_compound hseveral] at hnormal ⊢
    rw [merge, mergeAll_equalities, hnormal.make_eq, mergeOperands_equalities key hseveral,
      memberOf_toList_ofList]

end Cond

/-! ## Both ways together -/

namespace Field

private theorem eqAny_name (key : RecordKey) (values : List Value) :
    (Field.mk key.name).eqAny values = .ok (.alternatives key values : Cond κ) := by
  have hequal : values.mapM (Cond.equalTo key.name) =
      .ok (Cond.equalities (κ := κ) key values) :=
    mapM_eq_ok_map fun v _ ↦ Cond.ofTest_name key (.equal v)
  have haccepts : Kind.equal.Accepts (.value (.string key.name) :: values.map .value)
      (.or <$> values.mapM (Cond.equalTo (κ := κ) key.name)) := .comparison rfl key.name values
  rw [eqAny, make, Kind.make_eq_of_accepts haccepts, hequal]
  rfl

/-- A field under a key is asked by a disjunction of equalities and by a test of membership. Both
are compiled, to predicates that have the same truth value or fail in the same way on every record,
and merging makes the disjunction into the test. -/
theorem eqAny_agrees_isIn (key : RecordKey) (values : List Value) :
    ∃ (c d : Cond κ) (p q : Predicate), (Field.mk key.name).eqAny values = .ok c ∧
      (Field.mk key.name).isIn values = .ok d ∧ Predicate.compile c = .ok p ∧
      Predicate.compile d = .ok q ∧ (∀ record, p.evaluate record = q.evaluate record) ∧
      Pass.merging.run c = .ok (some d) := by
  obtain ⟨p, q, hp, hq, hagree⟩ := Cond.exists_compile_alternatives (κ := κ) key values
  refine ⟨_, _, p, q, eqAny_name key values, Cond.isIn_name key values, hp, hq, hagree, ?_⟩
  rw [Pass.run, Cond.merge_alternatives]

end Field

end Criteria
