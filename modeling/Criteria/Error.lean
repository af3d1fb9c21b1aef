import Criteria.Kind
import Criteria.Text.Quoted

/-!
# Failures of construction and traversal

The causes for which a condition cannot be built, and those for which a traversal of one stops.
Each cause has one wording.
-/

namespace Criteria

/-- What an operand has to be at its place. -/
inductive Expectation where
  | condition | boolean | recordKey | string | scalar | value | collection
deriving DecidableEq

/-- The words for what was expected. -/
def Expectation.words : Expectation → String
  | condition => "a condition"
  | boolean => "a boolean"
  | recordKey => "a record key"
  | string => "a string"
  | scalar => "a scalar value"
  | value => "a value"
  | collection => "a collection of values"

/-- How many operands a kind of condition takes. -/
inductive Arity where
  | one | bounds | keyAndOperands
deriving DecidableEq

/-- The words for a number of operands. -/
def Arity.words : Arity → String
  | one => "1"
  | bounds => "2 (min, max)"
  | keyAndOperands => "a record key and operands"

/-- Why a condition cannot be built. -/
inductive BuildError where
  /-- The name of a field has a character that is not ASCII. -/
  | nonAsciiKey (key : String)
  /-- An operand is null. -/
  | nullOperand (kind : Kind)
  /-- There are more or fewer operands than the kind takes. -/
  | arity (kind : Kind) (expected : Arity) (actual : Nat)
  /-- Several operands follow the key of a kind that takes one. -/
  | severalOperands (kind : Kind)
  /-- An operand is not what it has to be at its place. -/
  | invalidOperand (kind : Kind) (expected : Expectation) (found : String)
  /-- There is no test of inequality. -/
  | inequality
deriving DecidableEq

/-- The wording of a failed construction. -/
def BuildError.message : BuildError → String
  | nonAsciiKey key => "record key " ++ Text.escaped key ++ " is not an ASCII string"
  | nullOperand kind => kind.label ++ ": null is not a legal operand"
  | arity kind expected actual =>
    kind.label ++ ": expected " ++ expected.words ++ " operand(s), got " ++ actual.repr
  | severalOperands kind => kind.label ++ " does not accept multiple operands"
  | invalidOperand kind expected found =>
    kind.label ++ ": invalid operand => expected " ++ expected.words ++ ", got " ++ found
  | inequality => "the '!=' operator is not supported, negate an equality test instead"

/-- Why a traversal stops. -/
inductive TraversalError where
  /-- The traversal of the given name has no handler for conditions of a label. -/
  | noHandler (traversal label : String)
  /-- A negation stands over a condition of a label that it cannot be pushed through. -/
  | unsupportedNegation (label : String)
  /-- A condition that was to take the place of another cannot be built. -/
  | build (error : BuildError)
deriving DecidableEq

/-- The wording of a stopped traversal. -/
def TraversalError.message : TraversalError → String
  | noHandler traversal label => traversal ++ " has no handler for " ++ label
  | unsupportedNegation label => "cannot push a negation through " ++ label
  | build error => error.message

end Criteria
