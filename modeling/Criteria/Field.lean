import Criteria.Operand

/-!
# Conditions on a named field

A field is named first and then asked about. The name is checked when a condition is made of it.
-/

namespace Criteria

/-- A field to be tested. -/
structure Field where
  /-- The key under which the field stands; it need not be an ASCII text yet. -/
  key : String

namespace Field

variable {κ : Type} [CustomCondition κ]

/-- The condition of the given kind on the field, with the given operands. -/
def make (field : Field) (kind : Kind) (operands : List Value) : Except BuildError (Cond κ) :=
  kind.make (.value (.string field.key) :: operands.map .value)

/-- The field equals the value. -/
def eq (field : Field) (v : Value) : Except BuildError (Cond κ) := field.make .equal [v]

/-- Inequality has no condition of its own; an equality is negated instead. -/
def ne (_ : Field) (_ : Value) : Except BuildError (Cond κ) := .error .inequality

/-- The field is greater than the value. -/
def gt (field : Field) (v : Value) : Except BuildError (Cond κ) := field.make .greater [v]

/-- The field is greater than the value or equal to it. -/
def ge (field : Field) (v : Value) : Except BuildError (Cond κ) := field.make .greaterOrEqual [v]

/-- The field is less than the value. -/
def lt (field : Field) (v : Value) : Except BuildError (Cond κ) := field.make .less [v]

/-- The field is less than the value or equal to it. -/
def le (field : Field) (v : Value) : Except BuildError (Cond κ) := field.make .lessOrEqual [v]

/-- The field equals one of the values, as a disjunction of equalities. -/
def eqAny (field : Field) (values : List Value) : Except BuildError (Cond κ) :=
  field.make .equal values

/-- The field equals one of the values, as a test of membership. -/
def isIn (field : Field) (values : List Value) : Except BuildError (Cond κ) :=
  Cond.isIn field.key values

/-- The field lies between the bounds. -/
def between (field : Field) (low high : Value) : Except BuildError (Cond κ) :=
  Cond.between field.key low high

/-- The field is a text that contains the given one. -/
def contains (field : Field) (part : String) : Except BuildError (Cond κ) :=
  field.make .contains [.string part]

/-- The field is true. -/
def isTrue (field : Field) : Except BuildError (Cond κ) := Cond.isTrue field.key

/-- The record has no such field. -/
def isNull (field : Field) : Except BuildError (Cond κ) := Cond.isNull field.key

end Field

end Criteria
