import Criteria.Custom
import Criteria.RecordKey

/-!
# Conditions

A condition is a tree of negations and junctions over leaves: constants, tests of a field, and
custom conditions. The tree itself is unrestricted; the constructing functions of `Criteria.Build`
are what keeps it reduced. Every condition carries its digest, so that conditions that share large
parts can be told apart without a look at these parts.
-/

namespace Criteria

/-- A condition over custom leaves of type `κ`. -/
inductive Cond (κ : Type) [CustomCondition κ] where
  /-- Selects every record, or none. -/
  | fixed (truth : Bool)
  /-- Selects the records whose field under the key passes a test. -/
  | test (key : RecordKey) (test : Test)
  /-- A condition defined elsewhere. -/
  | custom (leaf : κ)
  /-- Selects the records that the operand does not select. -/
  | negation (operand : Cond κ)
  /-- Selects the records that all operands select, or that one of them does. -/
  | compound (junction : Junction) (operands : List (Cond κ))
with
  /-- The digest by the standard hash function, computed once for each condition. -/
  @[computed_field] standardDigest : (κ : Type) → (given : CustomCondition κ) → Cond κ → UInt64
    | κ, given, @Cond.fixed .(κ) .(given) truth =>
      standardHash [.label Kind.fixed.label, .truth truth]
    | κ, given, @Cond.test .(κ) .(given) key test =>
      standardHash (.label test.kind.label :: .text key.name :: test.tokens standardHash)
    | κ, given, @Cond.custom .(κ) .(given) leaf =>
      standardHash (.label (CustomCondition.label leaf) :: CustomCondition.tokens leaf)
    | κ, given, @Cond.negation .(κ) .(given) operand =>
      standardHash [.label Kind.not.label, .digest (standardDigest κ given operand)]
    | κ, given, @Cond.compound .(κ) .(given) junction operands =>
      standardHash (.label junction.kind.label :: unorderedTokens
        (operands.attach.map fun ⟨operand, _⟩ ↦
          standardHash [.digest (standardDigest κ given operand)]))
deriving Inhabited

namespace Cond

variable {κ : Type} [CustomCondition κ]

/-- Induction over a condition, where a compound may assume the statement of each operand. -/
@[induction_eliminator] theorem induction {motive : Cond κ → Prop}
    (fixed : ∀ truth, motive (.fixed truth))
    (test : ∀ key test, motive (.test key test))
    (custom : ∀ leaf, motive (.custom leaf))
    (negation : ∀ operand, motive operand → motive (.negation operand))
    (compound : ∀ junction operands, (∀ operand ∈ operands, motive operand) →
      motive (.compound junction operands)) (c : Cond κ) : motive c :=
  Cond.rec (motive_2 := fun operands ↦ ∀ operand ∈ operands, motive operand)
    fixed test custom negation compound (fun _ h ↦ nomatch h)
    (fun _ _ head tail _ h ↦ (List.mem_cons.mp h).elim (fun e ↦ e ▸ head) (tail _)) c

/-- The kind of a built-in condition. -/
def kind? : Cond κ → Option Kind
  | fixed _ => some .fixed
  | test _ t => some t.kind
  | custom _ => none
  | negation _ => some .not
  | compound j _ => some j.kind

/-- The key of a test. -/
def key? : Cond κ → Option RecordKey
  | test key _ => some key
  | _ => none

/-- The operand of a test that has one. -/
def operand? : Cond κ → Option Test.Operand
  | test _ t => t.operand?
  | _ => none

/-- How a compound joins its operands. -/
def junction? : Cond κ → Option Junction
  | compound j _ => some j
  | _ => none

/-- The operands of a compound. -/
def subconditions? : Cond κ → Option (List (Cond κ))
  | compound _ operands => some operands
  | _ => none

/-- What a negation negates. -/
def negated? : Cond κ → Option (Cond κ)
  | negation operand => some operand
  | _ => none

/-- The truth value of a constant. -/
def truth? : Cond κ → Option Bool
  | fixed truth => some truth
  | _ => none

/-- The name by which diagnostics and error messages call a condition. -/
def label : Cond κ → String
  | custom leaf => CustomCondition.label leaf
  | fixed _ => Kind.fixed.label
  | test _ t => t.kind.label
  | negation _ => Kind.not.label
  | compound j _ => j.kind.label

end Cond

end Criteria
