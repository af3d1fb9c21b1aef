import Criteria.Field
import Criteria.Proofs.Acceptance

/-!
# Checking keys

The key of a test has to be ASCII, and the functions that put a test to a field check it. Main
statement: a key that is not ASCII is refused by all of them whatever the operands, also by
membership in no values, but it gets past a kind of tests that is made from the key alone, and so
past an equality with any of no values: both give the constant false without making a test.
-/

namespace Criteria

variable {κ : Type} [CustomCondition κ]

/-! ## Ways of building a test -/

namespace Cond

/-- The functions named for tests, with what each is given besides the key. -/
inductive NamedTest where
  | equalTo (v : Value)
  | greater (v : Value)
  | greaterOrEqual (v : Value)
  | less (v : Value)
  | lessOrEqual (v : Value)
  | isIn (values : List Value)
  | between (low high : Value)
  | containsSubstring (part : String)
  | isTrue
  | isNull

/-- What a function named for a test makes of a key. -/
def NamedTest.build (key : String) : NamedTest → Except BuildError (Cond κ)
  | equalTo v => Cond.equalTo key v
  | greater v => Cond.greater key v
  | greaterOrEqual v => Cond.greaterOrEqual key v
  | less v => Cond.less key v
  | lessOrEqual v => Cond.lessOrEqual key v
  | isIn values => Cond.isIn key values
  | between low high => Cond.between key low high
  | containsSubstring part => Cond.containsSubstring key part
  | isTrue => Cond.isTrue key
  | isNull => Cond.isNull key

end Cond

namespace Field

/-- The questions that can be asked about a field. -/
inductive Question where
  | eq (v : Value)
  | ne (v : Value)
  | gt (v : Value)
  | ge (v : Value)
  | lt (v : Value)
  | le (v : Value)
  | eqAny (values : List Value)
  | isIn (values : List Value)
  | between (low high : Value)
  | contains (part : String)
  | isTrue
  | isNull

/-- The condition that asks the question about the field. -/
def ask (field : Field) : Question → Except BuildError (Cond κ)
  | .eq v => field.eq v
  | .ne v => field.ne v
  | .gt v => field.gt v
  | .ge v => field.ge v
  | .lt v => field.lt v
  | .le v => field.le v
  | .eqAny values => field.eqAny values
  | .isIn values => field.isIn values
  | .between low high => field.between low high
  | .contains part => field.contains part
  | .isTrue => field.isTrue
  | .isNull => field.isNull

end Field

/-! ## Refused keys -/

section Refused

variable {key : String} (h : ∃ ch ∈ key.toList, 128 ≤ ch.toNat)
include h

/-- Every function named for a test refuses a key that is not ASCII. -/
theorem Cond.NamedTest.build_eq_error (t : NamedTest) :
    t.build key = (.error (.nonAsciiKey key) : Except BuildError (Cond κ)) := by
  cases t with
  | isIn values => exact isIn_eq_error h values
  | equalTo v => exact ofTest_eq_error h (.equal v)
  | greater v => exact ofTest_eq_error h (.ordered .greater v)
  | greaterOrEqual v => exact ofTest_eq_error h (.ordered .greaterOrEqual v)
  | less v => exact ofTest_eq_error h (.ordered .less v)
  | lessOrEqual v => exact ofTest_eq_error h (.ordered .lessOrEqual v)
  | between low high => exact ofTest_eq_error h (.between low high)
  | containsSubstring part => exact ofTest_eq_error h (.contains part)
  | isTrue => exact ofTest_eq_error h .isTrue
  | isNull => exact ofTest_eq_error h .isNull

private theorem eq_nil_of_or_mapM_ofTest {α : Type} {items : List α} {t : α → Test} {c : Cond κ}
    (hor : .or <$> items.mapM (fun item ↦ Cond.ofTest key (t item)) = .ok c) :
    items = [] ∧ c = .fixed false := by
  obtain ⟨tests, htests, rfl⟩ := map_eq_ok_iff.mp hor
  cases items with
  | nil =>
    cases htests
    exact ⟨rfl, rfl⟩
  | cons item rest =>
    obtain ⟨test, -, htest⟩ := exists_result_of_mapM_eq_ok htests List.mem_cons_self
    rw [Cond.ofTest_eq_error h] at htest
    cases htest

/-- Of a key that is not ASCII a kind only makes the constant false, and that if the kind is one of
tests with an operand and no operand follows. -/
theorem Kind.make_nonAscii_eq_ok_iff {kind : Kind} {operands : List (Operand κ)} {c : Cond κ} :
    kind.make (.value (.string key) :: operands) = .ok c ↔
      kind.isItemWithOperand = true ∧ operands = [] ∧ c = .fixed false := by
  constructor
  · intro hmake
    obtain ⟨result, haccepts⟩ := exists_accepts_of_make hmake
    have hresult := (make_eq_of_accepts haccepts).symm.trans hmake
    generalize hlayout : .value (.string key) :: operands = layout at haccepts
    cases haccepts with
    | not c => cases hlayout
    | junction j cs =>
      cases cs with
      | nil => cases hlayout
      | cons c rest => cases hlayout
    | junctionOfList j cs => cases hlayout
    | fixed truth => cases hlayout
    | isTrue key =>
      cases hlayout
      rw [Cond.isTrue, Cond.ofTest_eq_error h] at hresult
      cases hresult
    | isNull key =>
      cases hlayout
      rw [Cond.isNull, Cond.ofTest_eq_error h] at hresult
      cases hresult
    | noOperand hkind key =>
      cases hlayout
      cases hresult
      exact ⟨hkind, rfl, rfl⟩
    | comparison hbuild key values =>
      cases hlayout
      have hkind := isItemWithOperand_of_acceptsSeveral (acceptsSeveral_of_comparison? hbuild)
      obtain ⟨t, -, rfl⟩ := exists_test_of_comparison? hbuild
      obtain ⟨rfl, rfl⟩ := eq_nil_of_or_mapM_ofTest h hresult
      exact ⟨hkind, rfl, rfl⟩
    | contains key parts =>
      cases hlayout
      obtain ⟨rfl, rfl⟩ := eq_nil_of_or_mapM_ofTest h hresult
      exact ⟨rfl, rfl, rfl⟩
    | oneOf key values =>
      cases hlayout
      rw [Cond.isIn_eq_error h] at hresult
      cases hresult
    | between key low high =>
      cases hlayout
      rw [Cond.between, Cond.ofTest_eq_error h] at hresult
      cases hresult
  · rintro ⟨hkind, rfl, rfl⟩
    exact make_eq_of_accepts (.noOperand hkind key)

/-- Of a field whose name is not ASCII a condition is only made by asking whether it equals any of
no values, and that is the constant false. -/
theorem Field.ask_nonAscii_eq_ok_iff {q : Question} {c : Cond κ} :
    (Field.mk key).ask q = .ok c ↔ q = .eqAny [] ∧ c = .fixed false := by
  have hmake (kind : Kind) (values : List Value) : (Field.mk key).make kind values = .ok c ↔
      kind.isItemWithOperand = true ∧ values = [] ∧ c = .fixed false := by
    rw [Field.make, Kind.make_nonAscii_eq_ok_iff h, List.map_eq_nil_iff]
  have hone (kind : Kind) (v : Value) : (Field.mk key).make kind [v] ≠ .ok c := fun hc ↦
    List.cons_ne_nil v [] ((hmake kind [v]).mp hc).2.1
  have hbuild (t : Cond.NamedTest) : t.build key ≠ .ok c := by
    rw [Cond.NamedTest.build_eq_error h]
    exact nofun
  constructor
  · intro hc
    cases q with
    | eq v => exact absurd hc (hone .equal v)
    | ne v => cases hc
    | gt v => exact absurd hc (hone .greater v)
    | ge v => exact absurd hc (hone .greaterOrEqual v)
    | lt v => exact absurd hc (hone .less v)
    | le v => exact absurd hc (hone .lessOrEqual v)
    | eqAny values =>
      obtain ⟨-, rfl, rfl⟩ := (hmake .equal values).mp hc
      exact ⟨rfl, rfl⟩
    | isIn values => exact absurd hc (hbuild (.isIn values))
    | between low high => exact absurd hc (hbuild (.between low high))
    | contains part => exact absurd hc (hone .contains (.string part))
    | isTrue => exact absurd hc (hbuild .isTrue)
    | isNull => exact absurd hc (hbuild .isNull)
  · rintro ⟨rfl, rfl⟩
    exact (hmake .equal []).mpr ⟨rfl, rfl, rfl⟩

/-- A key that is not ASCII is refused by every function named for a test. Of kinds and of questions
about a field, the ones that accept it are tests with an operand to which none is given, and the
question whether the field equals any of no values. -/
theorem nonAsciiKey_accepted_iff :
    (∀ t : Cond.NamedTest, t.build key = (.error (.nonAsciiKey key) : Except BuildError (Cond κ))) ∧
    (∀ (kind : Kind) (operands : List (Operand κ)) (c : Cond κ),
      kind.make (.value (.string key) :: operands) = .ok c ↔
        kind.isItemWithOperand = true ∧ operands = [] ∧ c = .fixed false) ∧
    ∀ (q : Field.Question) (c : Cond κ),
      (Field.mk key).ask q = .ok c ↔ q = .eqAny [] ∧ c = .fixed false :=
  ⟨fun t ↦ t.build_eq_error h, fun _ _ _ ↦ Kind.make_nonAscii_eq_ok_iff h,
    fun _ _ ↦ Field.ask_nonAscii_eq_ok_iff h⟩

end Refused

/-- The name of a city is refused as a key of a test of membership in no values and of an equality
with several values, also if one of them is a null. -/
theorem nonAsciiKey_accepted_iff_city :
    (Cond.NamedTest.isIn []).build "łódź" =
      (.error (.nonAsciiKey "łódź") : Except BuildError (Cond Empty)) ∧
    (∀ c : Cond Empty, Kind.equal.make
      [.value (.string "łódź"), .value (.boolean true), .null] ≠ .ok c) ∧
    ∀ c : Cond Empty, (Field.mk "łódź").ask (.isIn []) ≠ .ok c := by
  have h : ∃ ch ∈ "łódź".toList, 128 ≤ ch.toNat := ⟨'ł', by decide, by decide⟩
  refine ⟨(nonAsciiKey_accepted_iff h).1 (.isIn []), fun c hc ↦ ?_, fun c hc ↦ ?_⟩
  · cases (((nonAsciiKey_accepted_iff h).2.1 _ _ c).mp hc).2.1
  · cases (((nonAsciiKey_accepted_iff h).2.2 _ c).mp hc).1

/-- The same name passes where no operand follows the key: an equality without values is made from
raw operands, and asked as a question about the field. -/
theorem nonAsciiKey_accepted :
    (∃ ch ∈ "łódź".toList, 128 ≤ ch.toNat) ∧ Kind.equal.isItem = true ∧
    Kind.equal.make [.value (.string "łódź")] = .ok (.fixed false : Cond Empty) ∧
    (Field.mk "łódź").eqAny [] = .ok (.fixed false : Cond Empty) :=
  ⟨⟨'ł', by decide, by decide⟩, rfl, rfl, rfl⟩

end Criteria
