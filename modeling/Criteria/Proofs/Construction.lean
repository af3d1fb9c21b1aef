import Criteria.Proofs.Membership
import Criteria.Proofs.Refinement

/-!
# Reductions during construction

An expression says what to build without building it. It can be read directly, part by part and
without any reduction. Building reduces at every level, so that what is built may have another
shape. Main statement: evaluating what is built has every result that reading the expression has.
-/

namespace Criteria

/-- An expression of constants and tests. -/
inductive Expression where
  /-- True or false. -/
  | constant (truth : Bool)
  /-- The field under the key is put to a test. -/
  | test (key : RecordKey) (test : Test)
  /-- The operand is negated. -/
  | not (operand : Expression)
  /-- Any number of operands are joined. -/
  | join (junction : Junction) (operands : List Expression)

namespace Expression

/-- Induction over an expression, where a junction may assume the statement of each operand. -/
@[induction_eliminator] theorem induction {motive : Expression → Prop}
    (constant : ∀ truth, motive (.constant truth))
    (test : ∀ key test, motive (.test key test))
    (not : ∀ operand, motive operand → motive (.not operand))
    (join : ∀ junction operands, (∀ operand ∈ operands, motive operand) →
      motive (.join junction operands)) (e : Expression) : motive e :=
  Expression.rec (motive_2 := fun operands ↦ ∀ operand ∈ operands, motive operand)
    constant test not join (fun _ h ↦ nomatch h)
    (fun _ _ head tail _ h ↦ (List.mem_cons.mp h).elim (fun e ↦ e ▸ head) (tail _)) e

/-! ## Reading -/

mutual

/-- Reads an expression on a record. Each test is evaluated on its own. -/
def read (record : Record) : Expression → Except EvaluationError Bool
  | constant truth => .ok truth
  | test key t => t.evaluate key record
  | not operand => (read record operand).map (!·)
  | join j operands => readJoined record j operands

/-- Reads joined operands from left to right. Reading stops at the first that decides the junction,
or that fails. -/
def readJoined (record : Record) (j : Junction) : List Expression → Except EvaluationError Bool
  | [] => .ok j.neutral
  | operand :: rest => do
    if (← read record operand) = j.absorbing then return j.absorbing
    readJoined record j rest

end

private theorem readJoined_eq_evaluate (record : Record) (j : Junction)
    (operands : List Expression) :
    readJoined record j operands =
      j.evaluate record (operands.map fun operand ↦ ⟨fun record ↦ read record operand⟩) := by
  induction operands with
  | nil => rfl
  | cons operand rest ih =>
    rw [readJoined, ih]
    rfl

/-! ## Building -/

variable {κ : Type} [CustomCondition κ]

/-- The condition that is built for a test. A test of membership is built from its members. -/
def buildTest (key : RecordKey) : Test → Cond κ
  | .oneOf members => .memberOf key members.toList
  | t => .test key t

mutual

/-- Builds the condition that an expression describes. -/
def build : Expression → Cond κ
  | constant truth => .fixed truth
  | test key t => buildTest key t
  | not operand => (build operand).not
  | join j operands => j.make (buildAll operands)

/-- Builds the conditions of several expressions. -/
def buildAll : List Expression → List (Cond κ)
  | [] => []
  | operand :: rest => build operand :: buildAll rest

end

private theorem buildAll_eq_map (operands : List Expression) :
    (buildAll operands : List (Cond κ)) = operands.map build := by
  induction operands with
  | nil => rfl
  | cons operand rest ih => rw [buildAll, ih, List.map_cons]

private theorem buildTest_cases (key : RecordKey) (t : Test) :
    (∃ members, t = .oneOf members ∧
      (buildTest key t : Cond κ) = .memberOf key members.toList) ∨
      (t.kind ≠ .oneOf ∧ (buildTest key t : Cond κ) = .test key t) := by
  cases t with
  | oneOf members => exact .inl ⟨members, rfl, rfl⟩
  | ordered relation operand => exact .inr ⟨by cases relation <;> nofun, rfl⟩
  | equal operand => exact .inr ⟨nofun, rfl⟩
  | between low high => exact .inr ⟨nofun, rfl⟩
  | contains part => exact .inr ⟨nofun, rfl⟩
  | isTrue => exact .inr ⟨nofun, rfl⟩
  | isNull => exact .inr ⟨nofun, rfl⟩

private theorem customFree_build (e : Expression) : (e.build : Cond κ).CustomFree := by
  induction e with
  | constant truth =>
    rw [build]
    exact Cond.CustomFree.invariant.fixed truth
  | test key t =>
    have htest (t : Test) : (Cond.test key t : Cond κ).CustomFree :=
      Cond.everywhere_test.mpr nofun
    rw [build]
    rcases buildTest_cases (κ := κ) key t with ⟨members, -, heq⟩ | ⟨-, heq⟩
    · rw [heq]
      exact Cond.CustomFree.invariant.memberOf rfl (htest (.oneOf members)) members.toList
    · rw [heq]
      exact htest t
  | not operand ih =>
    rw [build]
    exact Cond.CustomFree.invariant.not ih
  | join j operands ih =>
    rw [build, buildAll_eq_map]
    apply Cond.CustomFree.invariant.make
    rw [List.forall_mem_map]
    exact ih

/-! ## Evaluating what was built -/

variable {record : Record}

private theorem read?_buildTest {key : RecordKey} {t : Test} {truth : Bool}
    (h : t.evaluate key record = .ok truth) :
    (buildTest key t : Cond κ).read? record = some truth := by
  have hread : (Cond.test key t : Cond κ).read? record = some truth :=
    toOption_eq_some_iff.mpr h
  rcases buildTest_cases (κ := κ) key t with ⟨members, rfl, heq⟩ | ⟨-, heq⟩
  · have hmembership : (Cond.test key (.oneOf members) : Cond κ).membership? =
      some (key, members.toList) := rfl
    rw [Cond.read?_of_membership? hmembership, Option.map_eq_some_iff] at hread
    obtain ⟨held, hheld, rfl⟩ := hread
    rw [heq, Cond.read?_memberOf hheld]
  · rw [heq, hread]

/-- What is built has the truth value that reading the expression gives. -/
theorem read?_build {e : Expression} {truth : Bool} (h : e.read record = .ok truth) :
    (e.build : Cond κ).read? record = some truth := by
  induction e generalizing truth with
  | constant constant =>
    cases h
    rw [build, Cond.read?_fixed]
  | test key t =>
    rw [build]
    exact read?_buildTest h
  | not operand ih =>
    rw [read] at h
    cases hoperand : operand.read record with
    | error e => rw [hoperand] at h; cases h
    | ok inner =>
      rw [hoperand] at h
      cases h
      rw [build, Cond.read?_not, ih hoperand, Option.map_some]
  | join j operands ih =>
    rw [build, buildAll_eq_map]
    apply Cond.refinedBy_make
    rw [read, readJoined_eq_evaluate, ← toOption_eq_some_iff, Cond.toOption_evaluate_junction,
      List.map_map] at h
    rw [Cond.read?_compound, List.map_map]
    apply Junction.combine?_mono _ h
    rw [List.forall₂_map_left_iff, List.forall₂_map_right_iff, List.forall₂_same]
    intro operand hmem inner hinner
    exact ih operand hmem (toOption_eq_some_iff.mp hinner)

/-- Evaluating what is built from an expression has the result of reading the expression, if that
has one. -/
theorem evaluate_build {e : Expression} {record : Record} {truth : Bool}
    (h : e.read record = .ok truth) : ∃ p, Predicate.compile (e.build : Cond κ) = .ok p ∧
      p.evaluate record = .ok truth := by
  obtain ⟨p, hp⟩ := Cond.exists_compile (customFree_build (κ := κ) e)
  exact ⟨p, hp, (Cond.evaluate_eq_ok_iff hp).mpr (read?_build h)⟩

/-- An expression of which building leaves only the constant true is true where its test is. -/
theorem evaluate_build_redundant :
    ∃ p, Predicate.compile ((join .or [join .and [test ⟨"a", rfl⟩ .isTrue, constant true],
        not (join .or [test ⟨"a", rfl⟩ .isTrue, constant false])]).build : Cond Empty) = .ok p ∧
      p.evaluate ⟨fun _ ↦ .ok (some (.single (.boolean true)))⟩ = .ok true :=
  evaluate_build rfl

end Expression

end Criteria
