/-!
# Kinds of conditions

Every built-in condition is of one of fourteen kinds. The kind decides which operands a condition
is made from, and the kinds that test a field form two nested families.
-/

namespace Criteria

/-- The kind of a built-in condition. -/
inductive Kind where
  /-- Conditions over other conditions. -/
  | not | and | or
  /-- Comparisons of a field with a value. -/
  | equal | greater | greaterOrEqual | less | lessOrEqual
  /-- Tests of a field with several values or with a text. -/
  | oneOf | between | contains
  /-- Tests of a field without an operand. -/
  | isTrue | isNull
  /-- Constants. -/
  | fixed
deriving DecidableEq, Inhabited

namespace Kind

/-- The name by which diagnostics and error messages call the conditions of a kind. -/
def label : Kind → String
  | not => "NotCond"
  | and => "AndCond"
  | or => "OrCond"
  | equal => "EqualCond"
  | greater => "GreaterCond"
  | greaterOrEqual => "GreaterOrEqualCond"
  | less => "LessCond"
  | lessOrEqual => "LessOrEqualCond"
  | oneOf => "InCond"
  | between => "BetweenCond"
  | contains => "ContainsSubstringCond"
  | isTrue => "IsTrueCond"
  | isNull => "IsNullCond"
  | fixed => "FixedCond"

/-- Whether the conditions of a kind test a field against an operand. -/
def isItemWithOperand : Kind → Bool
  | equal | greater | greaterOrEqual | less | lessOrEqual | oneOf | between | contains => true
  | _ => false

/-- Whether the conditions of a kind test a field. -/
def isItem : Kind → Bool
  | isTrue | isNull => true
  | kind => kind.isItemWithOperand

/-- Whether several operands after the key stand for the disjunction of one test each. -/
def acceptsSeveral : Kind → Bool
  | equal | greater | greaterOrEqual | less | lessOrEqual | contains => true
  | _ => false

/-- Only tests with an operand accept several of them. -/
theorem isItemWithOperand_of_acceptsSeveral {kind : Kind} (h : kind.acceptsSeveral = true) :
    kind.isItemWithOperand = true := by
  cases kind <;> simp_all [acceptsSeveral, isItemWithOperand]

end Kind

end Criteria
