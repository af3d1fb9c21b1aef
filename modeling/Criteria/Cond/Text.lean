import Criteria.Cond

/-!
# The texts of a condition

A condition is written in two ways. As a query it reads like `a == 1 AND NOT (b IN (1, 2))`,
where a junction inside a junction stands in parentheses. As a diagnostic it shows how it was
built, like `AndCond(EqualCond("a", 1), IsNullCond("k"))`.
-/

namespace Criteria.Cond

variable {κ : Type} [CustomCondition κ]

mutual

/-- The condition as a query. -/
def toText : Cond κ → String
  | fixed truth => if truth then "TRUE" else "FALSE"
  | test key t => t.toText key.name
  | custom leaf => CustomCondition.toText leaf
  | negation operand => "NOT (" ++ toText operand ++ ")"
  | compound j operands => j.separator.intercalate (operandTexts operands)

/-- The operands of a junction as parts of a query. -/
def operandTexts : List (Cond κ) → List String
  | [] => []
  | operand :: rest =>
    (if operand.junction?.isSome then "(" ++ toText operand ++ ")" else toText operand) ::
      operandTexts rest

end

mutual

/-- The condition as a diagnostic. -/
def toDiagnostic : Cond κ → String
  | fixed truth => Kind.fixed.label ++ "(" ++ Value.truthText truth ++ ")"
  | test key t => t.toDiagnostic key.name
  | custom leaf => CustomCondition.toDiagnostic leaf
  | negation operand => Kind.not.label ++ "(" ++ toDiagnostic operand ++ ")"
  | compound j operands =>
    j.kind.label ++ "(" ++ ", ".intercalate (toDiagnostics operands) ++ ")"

/-- The operands of a compound as diagnostics. -/
def toDiagnostics : List (Cond κ) → List String
  | [] => []
  | operand :: rest => toDiagnostic operand :: toDiagnostics rest

end

/-- Each operand is written on its own, in parentheses if it is a junction. -/
theorem operandTexts_eq_map (operands : List (Cond κ)) :
    operandTexts operands = operands.map fun operand ↦
      if operand.junction?.isSome then "(" ++ operand.toText ++ ")" else operand.toText := by
  induction operands with
  | nil => rfl
  | cons operand rest ih => rw [operandTexts, ih, List.map_cons]

end Criteria.Cond
