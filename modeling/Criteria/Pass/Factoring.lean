import Criteria.Pass.Sharing

/-!
# Factoring

Shared branches are pulled out of all junctions of a condition, from the leaves up, until no two
operands of a junction share a branch. The recursion goes on with the junction just built and not
with a part of the condition; it ends since each branch pulled out saves a leaf.
-/

namespace Criteria.Cond

variable {κ : Type} [CustomCondition κ]

/-- An operand comes before its compound: it has no more leaves and is smaller. -/
theorem operand_lex_compound {x : Cond κ} {operands : List (Cond κ)} (h : x ∈ operands)
    (j : Junction) :
    Prod.Lex (· < ·) (· < ·) (x.breadth, sizeOf x)
      ((compound j operands).breadth, sizeOf (compound j operands)) := by
  have hsize := List.sizeOf_lt_of_mem h
  have hle := Nat.le_trans (breadth_le_of_mem h) (Nat.le_max_right 1 _)
  refine Prod.Lex.right' _ hle ?_
  rw [compound.sizeOf_spec]
  omega

/-- A negated condition comes before the negation. -/
theorem operand_lex_negation (x : Cond κ) :
    Prod.Lex (· < ·) (· < ·) (x.breadth, sizeOf x)
      ((negation x).breadth, sizeOf (negation x)) := by
  refine Prod.Lex.right' _ (Nat.le_refl _) ?_
  rw [negation.sizeOf_spec]
  omega

private theorem breadth_rebuilt_le (j : Junction) (operands : List (Cond κ))
    (f : (x : Cond κ) → x ∈ operands → { d : Cond κ // d.breadth ≤ x.breadth }) :
    (j.make (operands.attach.map fun x ↦ (f x.1 x.2).1)).breadth ≤
      (compound j operands).breadth := by
  have hall : ∀ part : List { x // x ∈ operands },
      breadthAll (part.map fun x ↦ (f x.1 x.2).1) ≤ breadthAll (part.map Subtype.val) := by
    intro part
    induction part with
    | nil => exact Nat.le_refl _
    | cons x rest ih =>
      have := (f x.1 x.2).2
      simp only [List.map_cons, breadthAll]
      omega
  have hoperands := hall operands.attach
  have hmake := j.breadth_make_le (operands.attach.map fun x ↦ (f x.1 x.2).1)
  rw [List.attach_map_subtype_val] at hoperands
  rw [breadth]
  omega

/-- Factors a condition. The result has no more leaves. -/
def factorBounded (c : Cond κ) : { d : Cond κ // d.breadth ≤ c.breadth } :=
  match c with
  | fixed truth => ⟨fixed truth, Nat.le_refl _⟩
  | test key t => ⟨test key t, Nat.le_refl _⟩
  | custom leaf => ⟨custom leaf, Nat.le_refl _⟩
  | negation operand =>
    let ⟨factored, hle⟩ := factorBounded operand
    ⟨factored.not, by rw [breadth_not]; exact hle⟩
  | compound j operands =>
    let factored := fun x (_ : x ∈ operands) ↦ factorBounded x
    let rebuilt := j.make (operands.attach.map fun x ↦ (factored x.1 x.2).1)
    have hrebuilt : rebuilt.breadth ≤ (compound j operands).breadth :=
      breadth_rebuilt_le j operands factored
    match (pullOutShared? rebuilt).attach with
    | none => ⟨rebuilt, hrebuilt⟩
    | some ⟨shorter, h⟩ =>
      have hlt := Nat.lt_of_lt_of_le (breadth_pullOutShared?_lt h) hrebuilt
      let ⟨d, hle⟩ := factorBounded shorter
      ⟨d, Nat.le_trans hle (Nat.le_of_lt hlt)⟩
termination_by (c.breadth, sizeOf c)
decreasing_by
  · exact operand_lex_negation operand
  · exact operand_lex_compound ‹_› j
  · exact Prod.Lex.left _ _ hlt

/-- Pulls shared branches out of all junctions of a condition. -/
def factor (c : Cond κ) : Cond κ := (factorBounded c).1

/-- A constant is left as it is. -/
@[simp] theorem factor_fixed (truth : Bool) : (fixed truth : Cond κ).factor = fixed truth := by
  rw [factor, factorBounded]

/-- A test is left as it is. -/
@[simp] theorem factor_test (key : RecordKey) (t : Test) :
    (test key t : Cond κ).factor = test key t := by
  rw [factor, factorBounded]

/-- A custom condition is left as it is. -/
@[simp] theorem factor_custom (leaf : κ) : (custom leaf).factor = custom leaf := by
  rw [factor, factorBounded]

/-- A negation is rebuilt over the factored operand. -/
@[simp] theorem factor_negation (operand : Cond κ) :
    (negation operand).factor = operand.factor.not := by
  rw [factor, factorBounded]
  rfl

/-- A junction is rebuilt from the factored operands, and if they share a branch, this is pulled
out and the result factored again. -/
theorem factor_compound (j : Junction) (operands : List (Cond κ)) :
    (compound j operands).factor =
      match pullOutShared? (j.make (operands.map factor)) with
      | none => j.make (operands.map factor)
      | some shorter => shorter.factor := by
  have hmap : (operands.attach.map fun x ↦ (factorBounded x.1).1) = operands.map factor :=
    List.attach_map_val (f := factor) (l := operands)
  rw [factor, factorBounded, ← hmap]
  dsimp only
  split
  · next h =>
    rw [Option.attach_eq_none_iff] at h
    rw [h]
  · next h _ =>
    rw [h]
    rfl

/-- A branch pulled out of a junction rebuilt from its factored operands saves a leaf. -/
theorem breadth_lt_of_pullOutShared?_map_factor {j : Junction} {operands : List (Cond κ)}
    {shorter : Cond κ} (h : pullOutShared? (j.make (operands.map factor)) = some shorter) :
    shorter.breadth < (compound j operands).breadth := by
  have hle := breadth_rebuilt_le j operands fun x _ ↦ factorBounded x
  have hmap : (operands.attach.map fun x ↦ (factorBounded x.1).1) = operands.map factor :=
    List.attach_map_val (f := factor) (l := operands)
  rw [hmap] at hle
  exact Nat.lt_of_lt_of_le (breadth_pullOutShared?_lt h) hle

/-- Induction along the recursion of factoring: a compound may assume the statement of its
operands and of what a branch pulled out of the rebuilt junction leaves. -/
theorem factor_induction {motive : Cond κ → Prop}
    (fixed : ∀ truth, motive (.fixed truth))
    (test : ∀ key t, motive (.test key t))
    (custom : ∀ leaf, motive (.custom leaf))
    (negation : ∀ operand, motive operand → motive (.negation operand))
    (compound : ∀ j operands, (∀ operand ∈ operands, motive operand) →
      (∀ shorter, pullOutShared? (j.make (operands.map factor)) = some shorter →
        motive shorter) → motive (.compound j operands)) (c : Cond κ) : motive c :=
  match c with
  | .fixed truth => fixed truth
  | .test key t => test key t
  | .custom leaf => custom leaf
  | .negation operand =>
    negation operand (factor_induction fixed test custom negation compound operand)
  | .compound j operands =>
    compound j operands
      (fun operand _ ↦ factor_induction fixed test custom negation compound operand)
      fun shorter _ ↦ factor_induction fixed test custom negation compound shorter
termination_by (c.breadth, sizeOf c)
decreasing_by
  · exact operand_lex_negation operand
  · exact operand_lex_compound ‹_› j
  · exact Prod.Lex.left _ _ (breadth_lt_of_pullOutShared?_map_factor ‹_›)

end Criteria.Cond
