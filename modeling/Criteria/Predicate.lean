import Criteria.Cond
import Criteria.Error
import Criteria.Record

/-!
# Predicates

A condition without custom parts is compiled into a predicate on records. A field that is missing
fails every test except the one for its absence. A field of several values passes a test as soon
as one of its values does. A junction looks at its operands from left to right and stops at the
first one that decides it, or that fails to evaluate.
-/

namespace Criteria

/-- Whether a record is selected, if that can be told. -/
structure Predicate where
  /-- The truth value on a record. -/
  evaluate : Record → Except EvaluationError Bool

namespace Test

/-- The failure of a test that does not apply to a value. -/
def mismatch (t : Test) (key : String) (value : Value) : EvaluationError :=
  .typeMismatch key t.sign value

/-- Whether one value of the field under a key passes the test. -/
def passes (t : Test) (key : String) (value : Value) : Except EvaluationError Bool :=
  match t with
  | equal operand => .ok (value == operand)
  | ordered relation operand =>
    match value.compare? operand with
    | some order => .ok (relation.holds order)
    | none => .error (t.mismatch key value)
  | oneOf members => .ok (members.contains value)
  | between low high =>
    match low.compare? value, value.compare? high with
    | some lower, some upper => .ok (lower.isLE && upper.isLE)
    | _, _ => .error (t.mismatch key value)
  | contains part =>
    match value.asString? with
    | some text => .ok (Text.occursIn part.toList text.toList)
    | none => .error (t.mismatch key value)
  | isTrue =>
    match value.asBoolean? with
    | some truth => .ok truth
    | none => .error (t.mismatch key value)
  | isNull => .ok false

/-- Whether some value of a list passes. The values after the first one that passes, or to which
the test does not apply, are not looked at. -/
def anyPasses (t : Test) (key : String) : List Value → Except EvaluationError Bool
  | [] => .ok false
  | value :: rest => do
    if ← t.passes key value then return true
    t.anyPasses key rest

/-- The truth value of the test when the field is missing. -/
def whenMissing : Test → Bool
  | isNull => true
  | _ => false

/-- The truth value of the test for what a record may hold under the key. -/
def evaluateField (t : Test) (key : String) : Option FieldValue → Except EvaluationError Bool
  | none => .ok t.whenMissing
  | some .null => .error (.nullValue key)
  | some (.single value) => t.passes key value
  | some (.multi values) => t.anyPasses key values

/-- The truth value of the test on a record. -/
def evaluate (t : Test) (key : RecordKey) (record : Record) : Except EvaluationError Bool := do
  t.evaluateField key.name (← record.get key.name)

end Test

/-- The truth value of a junction of predicates. -/
def Junction.evaluate (j : Junction) (record : Record) :
    List Predicate → Except EvaluationError Bool
  | [] => .ok j.neutral
  | p :: rest => do
    if (← p.evaluate record) = j.absorbing then return j.absorbing
    j.evaluate record rest

namespace Predicate

/-- The name under which compiling reports conditions that it cannot handle. -/
def compilerName : String := "data_selection::predicates::PredicateCompiler"

/-- The predicate that is the same on all records. -/
def constant (truth : Bool) : Predicate := ⟨fun _ ↦ .ok truth⟩

/-- The predicate that is true where the given one is false. -/
def complement (p : Predicate) : Predicate := ⟨fun record ↦ (p.evaluate record).map (!·)⟩

variable {κ : Type} [CustomCondition κ]

mutual

/-- Compiles a condition. Custom conditions have no predicate. -/
def compile : Cond κ → Except TraversalError Predicate
  | .fixed truth => .ok (constant truth)
  | .test key t => .ok ⟨t.evaluate key⟩
  | .custom leaf => .error (.noHandler compilerName (CustomCondition.label leaf))
  | .negation operand => complement <$> compile operand
  | .compound j operands =>
    (fun predicates ↦ ⟨fun record ↦ j.evaluate record predicates⟩) <$> compileAll operands

/-- Compiles conditions from left to right. -/
def compileAll : List (Cond κ) → Except TraversalError (List Predicate)
  | [] => .ok []
  | operand :: rest => do
    let first ← compile operand
    let others ← compileAll rest
    return first :: others

end

/-- Each condition is compiled on its own, from left to right. -/
theorem compileAll_eq_mapM (operands : List (Cond κ)) :
    compileAll operands = operands.mapM compile := by
  induction operands with
  | nil => rfl
  | cons operand rest ih => rw [compileAll, List.mapM_cons, ih]

end Predicate

end Criteria
