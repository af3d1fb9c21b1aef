import Criteria.Kind

/-!
# Conjunction and disjunction

The two ways of joining any number of conditions. A constant is neutral in the one and absorbing
in the other.
-/

namespace Criteria

/-- The two ways of joining conditions. -/
inductive Junction where
  | and
  | or
deriving DecidableEq, Inhabited

namespace Junction

/-- The constant that leaves the junction as it is. -/
def neutral : Junction → Bool
  | and => true
  | or => false

/-- The constant that decides the junction. -/
def absorbing (j : Junction) : Bool := !j.neutral

/-- The other junction. -/
def dual : Junction → Junction
  | and => or
  | or => and

/-- The kind of the conditions that join operands in this way. -/
def kind : Junction → Kind
  | and => .and
  | or => .or

/-- What a query puts between the operands. -/
def separator : Junction → String
  | and => " AND "
  | or => " OR "

/-- The neutral constant is not the absorbing one. -/
theorem neutral_ne_absorbing (j : Junction) : j.neutral ≠ j.absorbing := by cases j <;> decide

/-- Every truth value is neutral or absorbing. -/
theorem eq_neutral_or_eq_absorbing (j : Junction) (truth : Bool) :
    truth = j.neutral ∨ truth = j.absorbing := by
  cases j <;> cases truth <;> decide

/-- What is neutral in the dual is absorbing in the junction. -/
@[simp] theorem neutral_dual (j : Junction) : j.dual.neutral = j.absorbing := by cases j <;> rfl

/-- The opposite of what is neutral is neutral in the dual. -/
theorem not_neutral (j : Junction) : (!j.neutral) = j.dual.neutral := by cases j <;> rfl

/-- The opposite of what is absorbing is absorbing in the dual. -/
theorem not_absorbing (j : Junction) : (!j.absorbing) = j.dual.absorbing := by cases j <;> rfl

end Junction

end Criteria
