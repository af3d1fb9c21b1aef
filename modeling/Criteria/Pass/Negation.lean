import Criteria.Cond.Size

/-!
# Pushing negations down

A negation over a junction becomes the dual junction of the negated operands, all the way down, so
that only tests are negated in the end. The recursion goes on with the junction just built, which
may have collapsed; it ends since that junction weighs less than the negation. A negation over a
custom condition cannot be pushed any further, and the pass fails.
-/

namespace Criteria.Cond

variable {κ : Type} [CustomCondition κ]

mutual

/-- Pushes the negations of a condition down to its tests. -/
def pushNegations : Cond κ → Except TraversalError (Cond κ)
  | fixed truth => .ok (fixed truth)
  | test key t => .ok (test key t)
  | custom leaf => .ok (custom leaf)
  | compound j operands => j.make <$> pushNegationsAll operands
  | negation (compound j operands) => pushNegations (j.dual.make (operands.map Cond.not))
  | negation (test key t) => .ok (negation (test key t))
  | negation operand => .error (.unsupportedNegation operand.label)
termination_by c => c.weight
decreasing_by
  · rw [weight]; omega
  · exact weight_make_not_lt ..

/-- Pushes the negations of several conditions down, from left to right. -/
def pushNegationsAll : List (Cond κ) → Except TraversalError (List (Cond κ))
  | [] => .ok []
  | operand :: rest => do
    let first ← pushNegations operand
    let others ← pushNegationsAll rest
    return first :: others
termination_by operands => weightAll operands
decreasing_by
  · rw [weightAll]; omega
  · rw [weightAll]; omega

end

/-- Negations are pushed down in each condition on its own, from left to right. -/
theorem pushNegationsAll_eq_mapM (operands : List (Cond κ)) :
    pushNegationsAll operands = operands.mapM pushNegations := by
  induction operands with
  | nil => rw [pushNegationsAll]; rfl
  | cons operand rest ih => rw [pushNegationsAll, List.mapM_cons, ih]

/-- A negation over anything but a test or a junction cannot be pushed any further. -/
theorem pushNegations_negation_other {operand : Cond κ}
    (htest : ∀ key t, operand ≠ test key t)
    (hcompound : ∀ j operands, operand ≠ compound j operands) :
    pushNegations (negation operand) = .error (.unsupportedNegation operand.label) := by
  rw [pushNegations]
  · exact hcompound
  · exact htest

/-- Induction along the recursion of the pass: a negated junction may assume the statement of the
dual junction of the negated operands. -/
theorem pushNegations_induction {motive : Cond κ → Prop}
    (fixed : ∀ truth, motive (.fixed truth))
    (test : ∀ key t, motive (.test key t))
    (custom : ∀ leaf, motive (.custom leaf))
    (compound : ∀ j operands, (∀ operand ∈ operands, motive operand) →
      motive (.compound j operands))
    (negatedTest : ∀ key t, motive (.negation (.test key t)))
    (negatedCompound : ∀ j operands, motive (j.dual.make (operands.map Cond.not)) →
      motive (.negation (.compound j operands)))
    (negatedOther : ∀ operand : Cond κ, (∀ key t, operand ≠ .test key t) →
      (∀ j operands, operand ≠ .compound j operands) → motive (.negation operand))
    (c : Cond κ) : motive c :=
  match c with
  | .fixed truth => fixed truth
  | .test key t => test key t
  | .custom leaf => custom leaf
  | .compound j operands =>
    compound j operands fun operand _ ↦ pushNegations_induction fixed test custom compound
      negatedTest negatedCompound negatedOther operand
  | .negation (.test key t) => negatedTest key t
  | .negation (.compound j operands) =>
    negatedCompound j operands (pushNegations_induction fixed test custom compound negatedTest
      negatedCompound negatedOther (j.dual.make (operands.map Cond.not)))
  | .negation (.fixed _) => negatedOther _ nofun nofun
  | .negation (.custom _) => negatedOther _ nofun nofun
  | .negation (.negation _) => negatedOther _ nofun nofun
termination_by c.weight
decreasing_by
  · have hlt := weight_lt_of_mem ‹_›
    rw [weight]
    omega
  · exact weight_make_not_lt ..

end Criteria.Cond
