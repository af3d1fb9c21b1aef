import Criteria.Build

/-!
# Sizes of conditions

Two measures that show that the passes end. The breadth counts leaves; building a junction never
increases it. The weight doubles under a negation, so that it decreases when a negation is pushed
over the operands of a junction.
-/

namespace Criteria

variable {κ : Type} [CustomCondition κ]

namespace Cond

mutual

/-- The number of leaves; a junction without any counts as one. -/
def breadth : Cond κ → Nat
  | fixed _ => 1
  | test _ _ => 1
  | custom _ => 1
  | negation operand => breadth operand
  | compound _ operands => max 1 (breadthAll operands)

/-- The number of leaves of several conditions. -/
def breadthAll : List (Cond κ) → Nat
  | [] => 0
  | operand :: rest => breadth operand + breadthAll rest

end

mutual

/-- The number of nodes, where what stands under a negation counts twice. -/
def weight : Cond κ → Nat
  | fixed _ => 1
  | test _ _ => 1
  | custom _ => 1
  | negation operand => 2 * weight operand
  | compound _ operands => 1 + weightAll operands

/-- The weight of several conditions, each with one more for its place. -/
def weightAll : List (Cond κ) → Nat
  | [] => 0
  | operand :: rest => weight operand + 1 + weightAll rest

end

/-- Every condition counts for at least one leaf. -/
theorem one_le_breadth (c : Cond κ) : 1 ≤ c.breadth := by
  induction c with
  | negation operand ih => exact ih
  | compound j operands _ => exact Nat.le_max_left ..
  | _ => exact Nat.le_refl 1

/-- The leaves of two lists are counted one list after the other. -/
@[simp] theorem breadthAll_append (xs ys : List (Cond κ)) :
    breadthAll (xs ++ ys) = breadthAll xs + breadthAll ys := by
  induction xs with
  | nil => simp [breadthAll]
  | cons x xs ih => simp only [List.cons_append, breadthAll, ih]; omega

/-- The weights of two lists add up. -/
@[simp] theorem weightAll_append (xs ys : List (Cond κ)) :
    weightAll (xs ++ ys) = weightAll xs + weightAll ys := by
  induction xs with
  | nil => simp [weightAll]
  | cons x xs ih => simp only [List.cons_append, weightAll, ih]; omega

private theorem breadthAll_le_of_sublist {xs ys : List (Cond κ)} (h : xs.Sublist ys) :
    breadthAll xs ≤ breadthAll ys := by
  induction h with
  | slnil => exact Nat.le_refl _
  | cons y _ ih => rw [breadthAll]; omega
  | cons_cons y _ ih => rw [breadthAll, breadthAll]; omega

private theorem weightAll_le_of_sublist {xs ys : List (Cond κ)} (h : xs.Sublist ys) :
    weightAll xs ≤ weightAll ys := by
  induction h with
  | slnil => exact Nat.le_refl _
  | cons y _ ih => rw [weightAll]; omega
  | cons_cons y _ ih => rw [weightAll, weightAll]; omega

private theorem breadthAll_eq_foldr_map (operands : List (Cond κ)) :
    breadthAll operands = (operands.map breadth).foldr Nat.add 0 := by
  induction operands with
  | nil => rfl
  | cons c rest ih => rw [breadthAll, ih, List.map_cons, List.foldr_cons, Nat.add_eq]

private theorem breadthAll_eq_of_map_perm {xs ys : List (Cond κ)}
    (h : (xs.map breadth).Perm (ys.map breadth)) : breadthAll xs = breadthAll ys := by
  rw [breadthAll_eq_foldr_map, breadthAll_eq_foldr_map]
  exact h.foldr_eq' (fun m _ n _ rest ↦ Nat.add_left_comm n m rest) 0

/-- Permuted conditions have equally many leaves. -/
theorem breadthAll_perm {xs ys : List (Cond κ)} (h : xs.Perm ys) :
    breadthAll xs = breadthAll ys :=
  breadthAll_eq_of_map_perm (h.map breadth)

/-- An operand has no more leaves than all operands. -/
theorem breadth_le_of_mem {x : Cond κ} {xs : List (Cond κ)} (h : x ∈ xs) :
    x.breadth ≤ breadthAll xs := by
  have := breadthAll_le_of_sublist (List.singleton_sublist.mpr h)
  simpa [breadthAll] using this

/-- Conditions of which there is at least one have a leaf. -/
theorem one_le_breadthAll {conditions : List (Cond κ)} (h : conditions ≠ []) :
    1 ≤ breadthAll conditions := by
  obtain ⟨c, hmem⟩ := List.exists_mem_of_ne_nil _ h
  exact Nat.le_trans c.one_le_breadth (breadth_le_of_mem hmem)

/-- An operand weighs less than all operands. -/
theorem weight_lt_of_mem {x : Cond κ} {xs : List (Cond κ)} (h : x ∈ xs) :
    x.weight < weightAll xs := by
  have := weightAll_le_of_sublist (List.singleton_sublist.mpr h)
  simp only [weightAll] at this
  omega

/-- Negating does not change the number of leaves. -/
@[simp] theorem breadth_not (c : Cond κ) : c.not.breadth = c.breadth := by
  cases c <;> rfl

private theorem weight_not_le (c : Cond κ) : c.not.weight ≤ 2 * c.weight := by
  cases c <;> simp only [Cond.not, weight] <;> omega

end Cond

namespace Junction

open Cond

/-- What an operand contributes has no more leaves than the operand. -/
theorem breadthAll_parts_le (j : Junction) (c : Cond κ) :
    breadthAll (j.parts c) ≤ c.breadth := by
  cases c with
  | fixed truth => rw [parts]; split <;> simp [breadthAll, breadth]
  | compound i operands =>
    rw [parts]
    split
    · exact Nat.le_max_right ..
    · simp [breadthAll]
  | _ => simp [parts, breadthAll]

private theorem weightAll_parts_le (j : Junction) (c : Cond κ) :
    weightAll (j.parts c) ≤ c.weight + 1 := by
  cases c with
  | fixed truth => rw [parts]; split <;> simp [weightAll, weight]
  | compound i operands =>
    rw [parts]
    split
    · rw [weight]; omega
    · simp [weightAll]
  | _ => simp [parts, weightAll]

private theorem breadthAll_flatMap_parts_le (j : Junction) (operands : List (Cond κ)) :
    breadthAll (operands.flatMap j.parts) ≤ breadthAll operands := by
  induction operands with
  | nil => exact Nat.le_refl _
  | cons c rest ih =>
    have := j.breadthAll_parts_le c
    simp only [List.flatMap_cons, breadthAll_append, breadthAll]
    omega

private theorem weightAll_flatten_le (j : Junction) (operands : List (Cond κ)) :
    weightAll (j.flatten operands).toList ≤ weightAll operands := by
  refine Nat.le_trans (weightAll_le_of_sublist (OrderedSet.toList_ofList_sublist _)) ?_
  induction operands with
  | nil => exact Nat.le_refl _
  | cons c rest ih =>
    have := j.weightAll_parts_le c
    simp only [List.flatMap_cons, weightAll_append, weightAll]
    omega

/-- A junction has no more leaves than what its operands contribute, but at least one. -/
theorem breadth_make_le_parts (j : Junction) (operands : List (Cond κ)) :
    (j.make operands).breadth ≤ max 1 (breadthAll (operands.flatMap j.parts)) := by
  have hle : breadthAll (j.flatten operands).toList ≤ _ :=
    breadthAll_le_of_sublist (OrderedSet.toList_ofList_sublist _)
  refine j.make_cases operands ?_ ?_ ?_ ?_
  · exact fun _ ↦ Nat.le_max_left ..
  · intro c hsingle
    rw [hsingle, breadthAll, breadthAll] at hle
    omega
  · exact fun _ ↦ Nat.le_max_left ..
  · intro _ _
    rw [breadth]
    omega

/-- A junction has no more leaves than what it is made from, but at least one. -/
theorem breadth_make_le (j : Junction) (operands : List (Cond κ)) :
    (j.make operands).breadth ≤ max 1 (breadthAll operands) := by
  have hparts := j.breadth_make_le_parts operands
  have hle := j.breadthAll_flatMap_parts_le operands
  omega

private theorem weight_make_le (j : Junction) (operands : List (Cond κ)) :
    (j.make operands).weight ≤ 1 + weightAll operands := by
  have hle := j.weightAll_flatten_le operands
  refine j.make_cases operands ?_ ?_ ?_ ?_
  · intro _
    rw [weight]
    omega
  · intro c hsingle
    rw [hsingle, weightAll, weightAll] at hle
    omega
  · intro _
    rw [weight]
    omega
  · intro _ _
    rw [weight]
    omega

end Junction

namespace Cond

/-- Equal conditions have equally many leaves. -/
theorem breadth_eq_of_beq {a b : Cond κ} (h : (a == b) = true) :
    a.breadth = b.breadth := by
  rw [beq_def] at h
  refine equal_induction ?_ ?_ ?_ ?_ ?_ h
  · exact fun _ ↦ rfl
  · exact fun _ _ _ _ ↦ rfl
  · exact fun _ ↦ rfl
  · intro operand other ih
    rw [breadth, breadth, ih]
  · intro j operands others ih hpairs
    have hall := breadthAll_eq_of_map_perm (map_perm_of_pairUp ih hpairs)
    rw [breadth, breadth, hall]

/-- Pushing a negation over the operands of a junction decreases the weight. -/
theorem weight_make_not_lt (i j : Junction) (operands : List (Cond κ)) :
    (i.make (operands.map Cond.not)).weight < (negation (compound j operands)).weight := by
  have hmake := i.weight_make_le (operands.map Cond.not)
  have hnot : weightAll (operands.map Cond.not) ≤ 2 * weightAll operands := by
    clear hmake
    induction operands with
    | nil => exact Nat.le_refl _
    | cons c rest ih =>
      have := c.weight_not_le
      simp only [List.map_cons, weightAll]
      omega
  simp only [weight]
  omega

end Cond

end Criteria
