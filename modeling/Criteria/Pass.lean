import Criteria.Pass.Factoring
import Criteria.Pass.Merging
import Criteria.Pass.Negation

/-!
# Passes

The passes of the library under one type, so that sequences of them can be run.
-/

namespace Criteria

/-- A pass, which turns a condition into one that selects the same. -/
inductive Pass where
  /-- Shared branches are pulled out of junctions. -/
  | factoring
  /-- Equalities on one key are merged. -/
  | merging
  /-- Negations are pushed down to tests. -/
  | negation
deriving DecidableEq, Inhabited

namespace Pass

variable {κ : Type} [CustomCondition κ]

/-- Runs a pass. Like every transformation it may fail, or drop the condition. -/
def run : Pass → Cond κ → Except TraversalError (Option (Cond κ))
  | factoring, c => .ok (some c.factor)
  | merging, c => .ok (some c.merge)
  | negation, c => some <$> c.pushNegations

/-- Runs passes one after the other, each on the condition that the one before has made. -/
def runAll : List Pass → Cond κ → Except TraversalError (Option (Cond κ))
  | [], c => .ok (some c)
  | pass :: passes, c => do
    match ← pass.run c with
    | some d => runAll passes d
    | none => return none

/-- Passes make a condition if the first one makes one and the others go on with it. -/
theorem runAll_cons_eq_ok_iff {pass : Pass} {passes : List Pass} {c d : Cond κ} :
    runAll (pass :: passes) c = .ok (some d) ↔
      ∃ e, pass.run c = .ok (some e) ∧ runAll passes e = .ok (some d) := by
  rw [runAll]
  cases pass.run c with
  | error e => exact iff_of_false nofun nofun
  | ok result =>
    cases result with
    | none => exact iff_of_false nofun nofun
    | some e =>
      constructor
      · intro h
        exact ⟨e, rfl, h⟩
      · rintro ⟨_, ⟨⟩, h⟩
        exact h

end Pass

end Criteria
