import Criteria.Operand
import Criteria.Proofs.Traversal

/-!
# The operands that a kind accepts

Every kind of condition documents how its operands have to be laid out. `Kind.Accepts` names these
layouts, each with what the function named for the condition makes of it. Main statement: under an
ASCII key a kind makes a condition exactly of the operands in one of its layouts, and it makes what
that function makes.
-/

namespace Criteria

variable {κ : Type} [CustomCondition κ]

/-! ## What an operand is taken for -/

namespace Operand

variable {kind : Kind} {operand : Operand κ}

private theorem expectCondition_eq_ok_iff {c : Cond κ} :
    operand.expectCondition kind = .ok c ↔ operand = .cond c := by
  cases operand <;> simp [expectCondition, refuse]

private theorem expectKey_eq_ok_iff {key : String} :
    operand.expectKey kind = .ok key ↔ operand = .value (.string key) := by
  cases operand with
  | value v => cases v <;> simp [expectKey, refuse]
  | _ => simp [expectKey, refuse]

private theorem expectBoolean_eq_ok_iff {truth : Bool} :
    operand.expectBoolean kind = .ok truth ↔ operand = .value (.boolean truth) := by
  cases operand with
  | value v => cases v <;> simp [expectBoolean, refuse]
  | _ => simp [expectBoolean, refuse]

private theorem expectString_eq_ok_iff {text : String} :
    operand.expectString kind = .ok text ↔ operand = .value (.string text) := by
  cases operand with
  | value v => cases v <;> simp [expectString, refuse]
  | _ => simp [expectString, refuse]

private theorem expectScalar_eq_ok_iff {v : Value} :
    operand.expectScalar kind = .ok v ↔ operand = .value v := by
  cases operand <;> simp [expectScalar, refuse]

private theorem expectItem_eq_ok_iff {v : Value} :
    operand.expectItem kind = .ok v ↔ operand = .value v := by
  cases operand <;> simp [expectItem, refuse]

private theorem expectValues_eq_ok_iff {values : List Value} :
    operand.expectValues kind = .ok values ↔ operand = .list (values.map .value) := by
  cases operand with
  | list items => rw [expectValues, mapM_eq_ok_iff_eq_map expectItem_eq_ok_iff, list.injEq]
  | _ => simp [expectValues, refuse]

private theorem expectBounds_eq_ok_iff {low high : Value} :
    operand.expectBounds kind = .ok (low, high) ↔ operand = .list [.value low, .value high] := by
  have hlist : operand = .list [.value low, .value high] ↔
      operand.expectValues kind = .ok [low, high] := by
    rw [expectValues_eq_ok_iff]
    rfl
  rw [hlist, expectBounds, bind_eq_ok_iff]
  constructor
  · rintro ⟨values, hvalues, h⟩
    split at h
    · cases h
      exact hvalues
    · cases h
  · exact fun h ↦ ⟨_, h, rfl⟩

private theorem expectOne_eq_ok_iff {operands : List (Operand κ)} :
    expectOne kind operands = .ok operand ↔ operands = [operand] := by
  rw [expectOne.eq_def]
  split
  · rw [Except.ok.injEq, List.cons.injEq, and_iff_left rfl]
  · next hne => exact iff_of_false nofun (hne operand)

private theorem expectConditions_eq_ok_iff {operands : List (Operand κ)} {cs : List (Cond κ)} :
    expectConditions kind operands = .ok cs ↔
      operands = cs.map .cond ∨ operands = [.list (cs.map .cond)] := by
  rw [expectConditions.eq_def]
  split
  · next items =>
    have hne : [.list items] ≠ cs.map cond := by
      intro h
      obtain ⟨c, -, hc⟩ := List.mem_map.mp (h ▸ List.mem_singleton_self (list items))
      cases hc
    rw [mapM_eq_ok_iff_eq_map expectCondition_eq_ok_iff, or_iff_right hne]
    simp
  · next hne => rw [mapM_eq_ok_iff_eq_map expectCondition_eq_ok_iff, or_iff_left (hne _)]

end Operand

/-! ## Layouts -/

namespace Kind

/-- What the function named for a kind of comparison makes of a key and a value. -/
def comparison? : Kind → Option (String → Value → Except BuildError (Cond κ))
  | equal => some Cond.equalTo
  | greater => some Cond.greater
  | greaterOrEqual => some Cond.greaterOrEqual
  | less => some Cond.less
  | lessOrEqual => some Cond.lessOrEqual
  | _ => none

/-- The layouts of operands that a kind documents, each with what the functions named for conditions
make of it. -/
inductive Accepts : Kind → List (Operand κ) → Except BuildError (Cond κ) → Prop
  /-- A negation has one condition. -/
  | not (c : Cond κ) : Accepts .not [.cond c] (.ok c.not)
  /-- A junction has any number of conditions. -/
  | junction (j : Junction) (cs : List (Cond κ)) : Accepts j.kind (cs.map .cond) (.ok (j.make cs))
  /-- The conditions of a junction may also stand in a single list. -/
  | junctionOfList (j : Junction) (cs : List (Cond κ)) :
    Accepts j.kind [.list (cs.map .cond)] (.ok (j.make cs))
  /-- A constant has a truth value. -/
  | fixed (truth : Bool) : Accepts .fixed [.value (.boolean truth)] (.ok (.fixed truth))
  /-- Tests of truth and of absence have a key. -/
  | isTrue (key : String) : Accepts .isTrue [.value (.string key)] (Cond.isTrue key)
  | isNull (key : String) : Accepts .isNull [.value (.string key)] (Cond.isNull key)
  /-- A test without an operand after the key never passes. -/
  | noOperand {kind : Kind} (h : kind.isItemWithOperand = true) (key : String) :
    Accepts kind [.value (.string key)] (.ok (.fixed false))
  /-- A comparison has any number of values after the key, and passes if one of them does. -/
  | comparison {kind : Kind} {build : String → Value → Except BuildError (Cond κ)}
    (h : kind.comparison? = some build) (key : String) (values : List Value) :
    Accepts kind (.value (.string key) :: values.map .value) (.or <$> values.mapM (build key))
  /-- A search for a text has any number of texts after the key, and passes if one of them does. -/
  | contains (key : String) (parts : List String) :
    Accepts .contains (.value (.string key) :: parts.map fun part ↦ .value (.string part))
      (.or <$> parts.mapM (Cond.containsSubstring key))
  /-- A test of membership has a list of values after the key. -/
  | oneOf (key : String) (values : List Value) :
    Accepts .oneOf [.value (.string key), .list (values.map .value)] (Cond.isIn key values)
  /-- A range has a list of two values after the key. -/
  | between (key : String) (low high : Value) :
    Accepts .between [.value (.string key), .list [.value low, .value high]]
      (Cond.between key low high)

variable {kind : Kind} {operands : List (Operand κ)}

/-- Comparisons put a test of their kind to the field under the key. -/
theorem exists_test_of_comparison? {build : String → Value → Except BuildError (Cond κ)}
    (h : kind.comparison? = some build) :
    ∃ t : Value → Test, (∀ v, (t v).kind = kind) ∧ build = fun key v ↦ Cond.ofTest key (t v) := by
  cases kind <;> cases h <;> exact ⟨_, fun _ ↦ rfl, rfl⟩

private theorem makeTest_of_comparison? {build : String → Value → Except BuildError (Cond κ)}
    (h : kind.comparison? = some build) (key : String) (operand : Operand κ) :
    kind.makeTest key operand = operand.expectScalar kind >>= build key := by
  cases kind <;> cases h <;> rfl

private theorem makeTest_contains (key : String) (operand : Operand κ) :
    contains.makeTest key operand =
      operand.expectString .contains >>= Cond.containsSubstring key :=
  rfl

private theorem comparison?_or_contains (h : kind.acceptsSeveral = true) :
    (∃ build, kind.comparison? (κ := κ) = some build) ∨ kind = .contains := by
  cases kind <;> first | exact .inl ⟨_, rfl⟩ | exact .inr rfl | cases h

/-- Comparisons accept several operands. -/
theorem acceptsSeveral_of_comparison? {build : String → Value → Except BuildError (Cond κ)}
    (h : kind.comparison? = some build) : kind.acceptsSeveral = true := by
  cases kind <;> first | rfl | cases h

private theorem exists_test_of_makeTest (h : kind.acceptsSeveral = true) {key : String}
    {operand : Operand κ} {c : Cond κ} (hmake : kind.makeTest key operand = .ok c) :
    ∃ accepted t, c = .test accepted t := by
  have htest {t : Test} (h : Cond.ofTest key t = .ok c) : ∃ accepted t, c = .test accepted t := by
    obtain ⟨accepted, -, rfl⟩ := map_eq_ok_iff.mp h
    exact ⟨accepted, t, rfl⟩
  rcases comparison?_or_contains (κ := κ) h with ⟨build, hbuild⟩ | rfl
  · rw [makeTest_of_comparison? hbuild] at hmake
    obtain ⟨v, -, hmake⟩ := bind_eq_ok_iff.mp hmake
    obtain ⟨t, -, rfl⟩ := exists_test_of_comparison? hbuild
    exact htest hmake
  · obtain ⟨part, -, hmake⟩ := bind_eq_ok_iff.mp hmake
    exact htest hmake

/-- Where several operands are accepted, any number of them gives the disjunction of a test each. -/
theorem makeTests_eq_or (h : kind.acceptsSeveral = true) (key : String)
    (operands : List (Operand κ)) : kind.makeTests (.value (.string key) :: operands) =
      .or <$> operands.mapM (kind.makeTest key) := by
  cases operands with
  | nil => rfl
  | cons operand others =>
    cases others with
    | nil =>
      change kind.makeTest key operand = .or <$> [operand].mapM (kind.makeTest key)
      rw [List.mapM_cons, List.mapM_nil]
      cases hmake : kind.makeTest key operand with
      | error e => rfl
      | ok c =>
        -- The disjunction of a single test is that test.
        obtain ⟨accepted, t, rfl⟩ := exists_test_of_makeTest h hmake
        rfl
    | cons second others =>
      simp [makeTests, Operand.expectKey, h, bind, Except.bind]

private theorem make_eq_makeTests (hkind : kind.isItemWithOperand = true)
    (hnull : operands.any Operand.isNull = false) :
    kind.make operands = kind.makeTests operands := by
  unfold make
  rw [hnull]
  cases kind <;> first | rfl | cases hkind

private theorem make_eq_junction (j : Junction) (hnull : operands.any Operand.isNull = false) :
    j.kind.make operands = j.make <$> Operand.expectConditions j.kind operands := by
  unfold make
  rw [hnull]
  cases j <;> rfl

/-- Where several operands are accepted, a key and any number of them give the disjunction of a test
each, unless one is a null. -/
theorem make_eq_or (h : kind.acceptsSeveral = true) (key : String)
    (hnull : operands.any Operand.isNull = false) :
    kind.make (.value (.string key) :: operands) =
      .or <$> operands.mapM (kind.makeTest key) := by
  rw [make_eq_makeTests (isItemWithOperand_of_acceptsSeveral h), makeTests_eq_or h]
  exact hnull

/-- A kind makes of a layout that it accepts what the function named for the condition makes. -/
theorem make_eq_of_accepts {result : Except BuildError (Cond κ)}
    (h : kind.Accepts operands result) : kind.make operands = result := by
  cases h with
  | not c => rfl
  | junction j cs =>
    have hnull : (cs.map Operand.cond).any Operand.isNull = false := by simp [Operand.isNull]
    rw [make_eq_junction j hnull, Operand.expectConditions_eq_ok_iff.mpr (.inl rfl)]
    rfl
  | junctionOfList j cs =>
    rw [make_eq_junction j rfl, Operand.expectConditions_eq_ok_iff.mpr (.inr rfl)]
    rfl
  | fixed truth => rfl
  | isTrue key => rfl
  | isNull key => rfl
  | noOperand hkind key =>
    rw [make_eq_makeTests hkind rfl]
    rfl
  | @comparison _ build hbuild key values =>
    have hnull : (values.map Operand.value).any (Operand.isNull (κ := κ)) = false := by
      simp [Operand.isNull]
    have hbuilds : kind.makeTest key ∘ Operand.value = build key := by
      funext v
      rw [Function.comp_apply, makeTest_of_comparison? hbuild]
      rfl
    rw [make_eq_or (acceptsSeveral_of_comparison? hbuild) key hnull, List.mapM_map]
    exact congrArg (Cond.or <$> values.mapM ·) hbuilds
  | contains key parts =>
    have hnull : (parts.map fun part ↦ Operand.value (.string part)).any
        (Operand.isNull (κ := κ)) = false := by
      simp [Operand.isNull]
    rw [make_eq_or rfl key hnull, List.mapM_map]
    rfl
  | oneOf key values =>
    rw [make_eq_makeTests rfl rfl]
    change Operand.expectValues .oneOf _ >>= Cond.isIn key = _
    rw [Operand.expectValues_eq_ok_iff.mpr rfl]
    rfl
  | between key low high => rfl

private theorem exists_accepts_of_makeTests (hkind : kind.isItemWithOperand = true) {c : Cond κ}
    (h : kind.makeTests operands = .ok c) : ∃ result, kind.Accepts operands result := by
  cases operands with
  | nil => cases h
  | cons first operands =>
    obtain ⟨key, hkey, hrest⟩ := bind_eq_ok_iff.mp h
    obtain rfl := Operand.expectKey_eq_ok_iff.mp hkey
    cases hseveral : kind.acceptsSeveral with
    | true =>
      rw [makeTests_eq_or hseveral] at h
      obtain ⟨tests, htests, -⟩ := map_eq_ok_iff.mp h
      rcases comparison?_or_contains (κ := κ) hseveral with ⟨build, hbuild⟩ | rfl
      · rw [funext (makeTest_of_comparison? hbuild key)] at htests
        obtain ⟨values, hvalues⟩ := exists_mapM_eq_ok_of_bind htests
        obtain rfl := (mapM_eq_ok_iff_eq_map Operand.expectScalar_eq_ok_iff).mp hvalues
        exact ⟨_, .comparison hbuild key values⟩
      · rw [funext (makeTest_contains key)] at htests
        obtain ⟨parts, hparts⟩ := exists_mapM_eq_ok_of_bind htests
        obtain rfl := (mapM_eq_ok_iff_eq_map Operand.expectString_eq_ok_iff).mp hparts
        exact ⟨_, .contains key parts⟩
    | false =>
      split at hrest
      · exact ⟨_, .noOperand hkind key⟩
      · next operand =>
        have hkinds : kind = .oneOf ∨ kind = .between := by
          cases kind <;> simp_all [isItemWithOperand, acceptsSeveral]
        rcases hkinds with rfl | rfl
        · obtain ⟨values, hvalues, -⟩ := bind_eq_ok_iff.mp hrest
          obtain rfl := Operand.expectValues_eq_ok_iff.mp hvalues
          exact ⟨_, .oneOf key values⟩
        · obtain ⟨⟨low, high⟩, hbounds, -⟩ := bind_eq_ok_iff.mp hrest
          obtain rfl := Operand.expectBounds_eq_ok_iff.mp hbounds
          exact ⟨_, .between key low high⟩
      · rw [hseveral] at hrest
        cases hrest

private theorem exists_accepts_of_expectConditions (j : Junction) {cs : List (Cond κ)}
    (h : Operand.expectConditions j.kind operands = .ok cs) :
    ∃ result, j.kind.Accepts operands result := by
  rcases Operand.expectConditions_eq_ok_iff.mp h with rfl | rfl
  · exact ⟨_, .junction j cs⟩
  · exact ⟨_, .junctionOfList j cs⟩

/-- What is made of operands is made of one of the layouts. -/
theorem exists_accepts_of_make {c : Cond κ} (h : kind.make operands = .ok c) :
    ∃ result, kind.Accepts operands result := by
  cases hnull : operands.any Operand.isNull with
  | true =>
    unfold make at h
    rw [hnull] at h
    cases h
  | false =>
    cases hkind : kind.isItemWithOperand with
    | true => exact exists_accepts_of_makeTests hkind (make_eq_makeTests hkind hnull ▸ h)
    | false =>
      unfold make at h
      rw [hnull] at h
      cases kind with
      | not =>
        obtain ⟨_, hone, hmake⟩ := bind_eq_ok_iff.mp h
        obtain ⟨d, hd, -⟩ := bind_eq_ok_iff.mp hmake
        obtain rfl := Operand.expectCondition_eq_ok_iff.mp hd
        obtain rfl := Operand.expectOne_eq_ok_iff.mp hone
        exact ⟨_, .not d⟩
      | and =>
        obtain ⟨cs, hcs, -⟩ := map_eq_ok_iff.mp h
        exact exists_accepts_of_expectConditions .and hcs
      | or =>
        obtain ⟨cs, hcs, -⟩ := map_eq_ok_iff.mp h
        exact exists_accepts_of_expectConditions .or hcs
      | fixed =>
        obtain ⟨_, hone, hmake⟩ := bind_eq_ok_iff.mp h
        obtain ⟨truth, htruth, -⟩ := bind_eq_ok_iff.mp hmake
        obtain rfl := Operand.expectBoolean_eq_ok_iff.mp htruth
        obtain rfl := Operand.expectOne_eq_ok_iff.mp hone
        exact ⟨_, .fixed truth⟩
      | isTrue =>
        obtain ⟨_, hone, hmake⟩ := bind_eq_ok_iff.mp h
        obtain ⟨key, hkey, -⟩ := bind_eq_ok_iff.mp hmake
        obtain rfl := Operand.expectKey_eq_ok_iff.mp hkey
        obtain rfl := Operand.expectOne_eq_ok_iff.mp hone
        exact ⟨_, .isTrue key⟩
      | isNull =>
        obtain ⟨_, hone, hmake⟩ := bind_eq_ok_iff.mp h
        obtain ⟨key, hkey, -⟩ := bind_eq_ok_iff.mp hmake
        obtain rfl := Operand.expectKey_eq_ok_iff.mp hkey
        obtain rfl := Operand.expectOne_eq_ok_iff.mp hone
        exact ⟨_, .isNull key⟩
      | _ => cases hkind

/-- A layout whose key is ASCII gives a condition. -/
theorem Accepts.exists_eq_ok {result : Except BuildError (Cond κ)}
    (h : kind.Accepts operands result)
    (hkey : ∀ key rest, operands = .value (.string key) :: rest →
      key.toList.all (·.toNat < 128) = true) : ∃ c, result = .ok c := by
  have hor {α : Type} {items : List α} {build : α → Except BuildError (Cond κ)}
      (hbuild : ∀ item, ∃ c, build item = .ok c) : ∃ c, Cond.or <$> items.mapM build = .ok c := by
    obtain ⟨tests, htests⟩ := exists_mapM_eq_ok fun item (_ : item ∈ items) ↦ hbuild item
    exact ⟨_, map_eq_ok_iff.mpr ⟨tests, htests, rfl⟩⟩
  cases h with
  | not c => exact ⟨_, rfl⟩
  | junction j cs => exact ⟨_, rfl⟩
  | junctionOfList j cs => exact ⟨_, rfl⟩
  | fixed truth => exact ⟨_, rfl⟩
  | noOperand hkind key => exact ⟨_, rfl⟩
  | isTrue key => exact ⟨_, Cond.ofTest_name ⟨key, hkey key _ rfl⟩ .isTrue⟩
  | isNull key => exact ⟨_, Cond.ofTest_name ⟨key, hkey key _ rfl⟩ .isNull⟩
  | comparison hbuild key values =>
    obtain ⟨t, -, rfl⟩ := exists_test_of_comparison? hbuild
    exact hor fun v ↦ ⟨_, Cond.ofTest_name ⟨key, hkey key _ rfl⟩ (t v)⟩
  | contains key parts =>
    exact hor fun part ↦ ⟨_, Cond.ofTest_name ⟨key, hkey key _ rfl⟩ (.contains part)⟩
  | oneOf key values => exact ⟨_, Cond.isIn_name ⟨key, hkey key _ rfl⟩ values⟩
  | between key low high =>
    exact ⟨_, Cond.ofTest_name ⟨key, hkey key _ rfl⟩ (.between low high)⟩

/-- If a key that stands first is ASCII, a kind makes a condition exactly of the operands in one of
its layouts. Of these it makes, whatever the key, what the function named for the condition does. -/
theorem make_iff_accepts (hkey : ∀ key rest, operands = .value (.string key) :: rest →
    key.toList.all (·.toNat < 128) = true) :
    ((∃ c, kind.make operands = .ok c) ↔ ∃ result, kind.Accepts operands result) ∧
      ∀ result, kind.Accepts operands result → kind.make operands = result := by
  refine ⟨⟨fun ⟨_, hmake⟩ ↦ exists_accepts_of_make hmake, ?_⟩, fun _ ↦ make_eq_of_accepts⟩
  rintro ⟨result, haccepts⟩
  obtain ⟨c, hc⟩ := haccepts.exists_eq_ok hkey
  exact ⟨c, (make_eq_of_accepts haccepts).trans hc⟩

/-- Several values of different kinds are compared each for itself. A null among the members of a
test of membership fits no layout. -/
theorem make_iff_accepts_mixed :
    Kind.less.make [.value (.string "a"), .value (.boolean true), .value (.string "b")] =
      (.or <$> [.boolean true, .string "b"].mapM (Cond.less "a") :
        Except BuildError (Cond Empty)) ∧
    (∃ c : Cond Empty,
      Kind.less.make [.value (.string "a"), .value (.boolean true), .value (.string "b")] = .ok c) ∧
    ¬∃ result : Except BuildError (Cond Empty), Kind.oneOf.Accepts
      [.value (.string "a"), .list [.value (.boolean true), .null]] result := by
  have hkey {operands : List (Operand Empty)} (key : String) (rest : List (Operand Empty))
      (h : .value (.string "a") :: operands = Operand.value (.string key) :: rest) :
      key.toList.all (·.toNat < 128) = true := by
    cases h
    rfl
  have hless : Kind.less.Accepts
      [.value (.string "a"), .value (.boolean true), .value (.string "b")]
      (.or <$> [.boolean true, .string "b"].mapM (Cond.less "a") :
        Except BuildError (Cond Empty)) := .comparison rfl "a" [.boolean true, .string "b"]
  refine ⟨(make_iff_accepts hkey).2 _ hless, (make_iff_accepts hkey).1.mpr ⟨_, hless⟩, ?_⟩
  intro haccepts
  obtain ⟨c, hc⟩ := (make_iff_accepts hkey).1.mpr haccepts
  cases hc

end Kind

end Criteria
