import Criteria.Category
import Criteria.Error

/-!
# Dispatch by category

A dispatch answers for a condition by the most specific of its handlers that the condition's
categories have.
-/

namespace Criteria

/-- Handlers for some categories of conditions, under a name for error messages. -/
structure Dispatch (κ ρ : Type) [CustomCondition κ] where
  /-- The name of the dispatch. -/
  name : String
  /-- The handler for a category of conditions, if there is one. -/
  handler? : Category → Option (Cond κ → Except TraversalError ρ)

namespace Dispatch

variable {κ ρ : Type} [CustomCondition κ]

/-- Answers for a condition. -/
def apply (dispatch : Dispatch κ ρ) (c : Cond κ) :
    Except TraversalError ρ :=
  match c.categories.findSome? dispatch.handler? with
  | some handle => handle c
  | none => .error (.noHandler dispatch.name c.label)

/-- The dispatch with one handler. -/
def single (name : String) (category : Category) (handle : Cond κ → Except TraversalError ρ) :
    Dispatch κ ρ where
  name
  handler? other := if other = category then some handle else none

end Dispatch

end Criteria
