import Criteria.Cond

/-!
# Categories of conditions

A traversal handles a condition by the most specific handler it has for it. Handlers are found by
the category of conditions they are for, and every condition belongs to a chain of categories,
from its own kind up to the category of all conditions. The name of a category also decides which
parts of a condition its handler is given.
-/

namespace Criteria

/-- A category of conditions that a handler may be for. -/
inductive Category where
  /-- The conditions of one kind. -/
  | kind (kind : Kind)
  /-- Conjunctions and disjunctions. -/
  | junction
  /-- Conditions with conditions as operands. -/
  | compound
  /-- Tests with an operand. -/
  | itemWithOperand
  /-- Tests. -/
  | item
  /-- Conditions defined elsewhere. -/
  | custom
  /-- All conditions. -/
  | any
deriving DecidableEq

/-- The categories below the one of all conditions that the conditions of a kind belong to, the
most specific one first. -/
def Kind.categories (kind : Kind) : List Category :=
  match kind with
  | .and | .or => [.kind kind, .junction, .compound]
  | .not => [.kind kind, .compound]
  | .isTrue | .isNull => [.kind kind, .item]
  | .fixed => [.kind kind]
  | _ => [.kind kind, .itemWithOperand, .item]

namespace Cond

variable {κ : Type} [CustomCondition κ]

/-- Whether the condition has conditions as operands. -/
def isCompound : Cond κ → Bool
  | negation _ | compound _ _ => true
  | _ => false

/-- Induction over a condition, with one case for all conditions without operands. -/
@[elab_as_elim] theorem leafInduction {motive : Cond κ → Prop}
    (leaf : ∀ c, c.isCompound = false → motive c)
    (negation : ∀ operand, motive operand → motive (.negation operand))
    (compound : ∀ j operands, (∀ operand ∈ operands, motive operand) →
      motive (.compound j operands)) (c : Cond κ) : motive c := by
  induction c with
  | fixed truth => exact leaf _ rfl
  | test key t => exact leaf _ rfl
  | custom inner => exact leaf _ rfl
  | negation operand ih => exact negation operand ih
  | compound j operands ih => exact compound j operands ih

/-- The categories below the one of all conditions that a condition belongs to. -/
def specificCategories (c : Cond κ) : List Category :=
  match c.kind? with
  | some kind => kind.categories
  | none => [.custom]

/-- The categories that a condition belongs to, the most specific one first. -/
def categories (c : Cond κ) : List Category := c.specificCategories ++ [.any]

end Cond

/-- A part of a condition that a handler is given. -/
inductive Part (κ : Type) [CustomCondition κ] where
  /-- What a negation negates. -/
  | condition (condition : Cond κ)
  /-- The operands of a junction. -/
  | conditions (conditions : List (Cond κ))
  /-- The key of a test. -/
  | key (key : RecordKey)
  /-- The operand of a comparison, or one bound of a range. -/
  | value (value : Value)
  /-- The members of a test of membership. -/
  | values (values : OrderedSet Value)
  /-- The text that a text has to contain. -/
  | text (text : String)
  /-- The truth value of a constant. -/
  | truth (truth : Bool)
  /-- A custom condition. -/
  | custom (leaf : κ)

/-- The operand of a test in parts: the bounds of a range are two. -/
def Test.Operand.parts {κ : Type} [CustomCondition κ] : Test.Operand → List (Part κ)
  | value v => [.value v]
  | set members => [.values members]
  | range low high => [.value low, .value high]
  | substring part => [.text part]

/-- The parts that a handler is given of a condition of its category. -/
def Category.parts {κ : Type} [CustomCondition κ] : Category → Cond κ → List (Part κ)
  | kind _, .negation operand => [.condition operand]
  | kind _, .compound _ operands => [.conditions operands]
  | junction, .compound _ operands => [.conditions operands]
  | kind _, .test key t => .key key :: (t.operand?.map Test.Operand.parts).getD []
  | kind _, .fixed truth => [.truth truth]
  | custom, .custom leaf => [.custom leaf]
  | _, _ => []

end Criteria
