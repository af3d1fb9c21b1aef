import Criteria.Build
import Criteria.Category

/-!
# Transformations

A transformation turns a condition into another one, or drops it. What it has no handler for is
left as it is, except that the operands of a compound are transformed and the compound is built
anew from what is left of them.
-/

namespace Criteria

/-- What a handler of a transformation does with a condition. -/
inductive Action (κ : Type) [CustomCondition κ] where
  /-- The condition becomes another one, or is dropped, or the transformation fails. -/
  | done (result : Except TraversalError (Option (Cond κ)))
  /-- The operands of the condition are transformed; a condition without operands is kept. -/
  | descend

/-- Handlers for some categories of conditions. -/
structure Transformation (κ : Type) [CustomCondition κ] where
  /-- The handler for a category of conditions, if there is one. -/
  handler? : Category → Option (Cond κ → Action κ)

namespace Transformation

variable {κ : Type} [CustomCondition κ]

/-- The categories whose handlers are looked for: for a compound, the category of all conditions
is not among them. -/
def categories (c : Cond κ) : List Category :=
  if c.isCompound then c.specificCategories else c.categories

/-- What is done with a condition: what the most specific of the handlers says. -/
def action (t : Transformation κ) (c : Cond κ) : Action κ :=
  match (categories c).findSome? t.handler? with
  | some handle => handle c
  | none => .descend

/-- What becomes of a condition without operands. -/
def applyLeaf (t : Transformation κ) (c : Cond κ) : Except TraversalError (Option (Cond κ)) :=
  match t.action c with
  | .done result => result
  | .descend => .ok (some c)

mutual

/-- Transforms a condition. A compound is dropped if all its operands are. -/
def apply (t : Transformation κ) : Cond κ → Except TraversalError (Option (Cond κ))
  | .negation operand =>
    match t.action (.negation operand) with
    | .done result => result
    | .descend => (apply t operand).map (Option.map Cond.not)
  | .compound j operands =>
    match t.action (.compound j operands) with
    | .done result => result
    | .descend => (applyAll t operands).map fun kept ↦
      if kept.isEmpty then none else some (j.make kept)
  | .fixed truth => t.applyLeaf (.fixed truth)
  | .test key test => t.applyLeaf (.test key test)
  | .custom leaf => t.applyLeaf (.custom leaf)

/-- Transforms conditions from left to right and leaves out the dropped ones. -/
def applyAll (t : Transformation κ) : List (Cond κ) → Except TraversalError (List (Cond κ))
  | [] => .ok []
  | operand :: rest => do
    let first? ← apply t operand
    let others ← applyAll t rest
    return first?.toList ++ others

end

/-- A condition without operands becomes what its handler answers, or stays as it is. -/
theorem apply_eq_applyLeaf {t : Transformation κ} {c : Cond κ} (h : c.isCompound = false) :
    t.apply c = t.applyLeaf c := by
  cases c with
  | fixed truth => rfl
  | test key u => rfl
  | custom leaf => rfl
  | negation operand => cases h
  | compound j operands => cases h

/-- Without a handler for any category of a condition, its operands are transformed. -/
theorem action_eq_descend_of_forall {t : Transformation κ} {c : Cond κ}
    (h : ∀ category ∈ categories c, t.handler? category = none) : t.action c = .descend := by
  rw [action, List.findSome?_eq_none_iff.mpr h]

/-- The transformation without handlers. -/
def identity : Transformation κ := ⟨fun _ ↦ none⟩

/-- The transformation with one handler. -/
def single (category : Category) (handle : Cond κ → Action κ) : Transformation κ where
  handler? other := if other = category then some handle else none

end Transformation

end Criteria
