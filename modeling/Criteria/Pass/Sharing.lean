import Criteria.Cond.Size

/-!
# Pulling out a shared branch

The branches of an operand of a junction are its own operands if it is the dual junction, and
otherwise the operand alone. A branch that several operands share is pulled out of them by
distributivity: `(x OR a) AND (x OR b)` becomes `x OR (a AND b)`, and likewise with the junctions
exchanged. The branch that most operands share is taken, and of several the one that stands first.
The main statement is that a leaf is saved, `Cond.breadth_pullOutShared?_lt`.
-/

namespace Criteria

variable {κ : Type} [CustomCondition κ]

namespace Junction

/-- The branches of an operand of a junction. -/
def branches (j : Junction) (operand : Cond κ) : List (Cond κ) :=
  match operand with
  | .compound i operands => if i = j.dual then operands else [operand]
  | _ => [operand]

/-- How often a condition stands among the branches of the operands. -/
def shareCount (j : Junction) (operands : List (Cond κ)) (c : Cond κ) : Nat :=
  (operands.flatMap j.branches).countP (· == c)

/-- The better of a condition that was found before and a new one. A condition is worth taking if
its count is at least two, and a new one only replaces another if its count is greater. -/
def better? (count : Cond κ → Nat) : Option (Cond κ) → Cond κ → Option (Cond κ)
  | none, c => if 2 ≤ count c then some c else none
  | some best, c => if count best < count c then some c else some best

/-- The first of the conditions with the greatest count, if that is at least two. -/
def mostCounted? (count : Cond κ → Nat) (candidates : List (Cond κ)) : Option (Cond κ) :=
  candidates.foldl (better? count) none

/-- The branch that most operands share, if any two do. -/
def mostShared? (j : Junction) (operands : List (Cond κ)) : Option (Cond κ) :=
  mostCounted? (j.shareCount operands) (OrderedSet.ofList (operands.flatMap j.branches)).toList

/-- Whether an operand has a branch that equals the given condition. -/
def hasBranch (j : Junction) (common operand : Cond κ) : Bool :=
  (j.branches operand).any (· == common)

/-- The operands that have a branch that equals the given condition. -/
def sharing (j : Junction) (common : Cond κ) (operands : List (Cond κ)) : List (Cond κ) :=
  operands.filter (j.hasBranch common)

/-- The branches of an operand that do not equal the given condition. -/
def otherBranches (j : Junction) (common operand : Cond κ) : List (Cond κ) :=
  (j.branches operand).filter fun branch ↦ !(branch == common)

/-- What is left of an operand without the branches that equal the given condition. -/
def remainder (j : Junction) (common operand : Cond κ) : Cond κ :=
  j.dual.make (j.otherBranches common operand)

/-- The operands that share a branch as one operand, in which the branch stands once. -/
def factored (j : Junction) (common : Cond κ) (operands : List (Cond κ)) : Cond κ :=
  j.dual.make [common, j.make ((j.sharing common operands).map (j.remainder common))]

/-- The operands after pulling out a shared branch: the operand made of those that share it stands
where the first of them stood, and the others keep their order. -/
def pullOut (j : Junction) (common : Cond κ) (operands : List (Cond κ)) : List (Cond κ) :=
  let shares := j.hasBranch common
  operands.takeWhile (!shares ·) ++ j.factored common operands ::
    (operands.dropWhile (!shares ·)).filter (!shares ·)

/-- An operand is the dual junction and its branches are its operands, or it is its only branch. -/
theorem branches_cases (j : Junction) (operand : Cond κ) :
    (∃ operands, operand = .compound j.dual operands ∧ j.branches operand = operands) ∨
      j.branches operand = [operand] := by
  cases operand with
  | compound i operands =>
    rw [branches]
    split
    · next heq => exact .inl ⟨operands, by rw [heq], rfl⟩
    · exact .inr rfl
  | fixed truth => exact .inr rfl
  | test key t => exact .inr rfl
  | custom leaf => exact .inr rfl
  | negation inner => exact .inr rfl

/-- The operands without a branch are those before the first one that has it, and those after it. -/
theorem filter_not_hasBranch (j : Junction) (common : Cond κ) (operands : List (Cond κ)) :
    operands.filter (!j.hasBranch common ·) = operands.takeWhile (!j.hasBranch common ·) ++
      (operands.dropWhile (!j.hasBranch common ·)).filter (!j.hasBranch common ·) := by
  let kept := fun operand ↦ !j.hasBranch common operand
  have hall : (operands.takeWhile kept).filter kept = operands.takeWhile kept :=
    List.filter_eq_self.mpr fun x hx ↦ List.all_eq_true.mp List.all_takeWhile x hx
  conv => lhs; rw [← List.takeWhile_append_dropWhile (p := kept) (l := operands)]
  rw [List.filter_append, hall]

/-- Up to order, pulling out a shared branch replaces the operands that share it by one. -/
theorem pullOut_perm (j : Junction) (common : Cond κ) (operands : List (Cond κ)) :
    (j.pullOut common operands).Perm
      (j.factored common operands :: operands.filter (!j.hasBranch common ·)) := by
  rw [pullOut, filter_not_hasBranch j common operands]
  exact List.perm_middle

end Junction

namespace Cond

/-- Pulls the most shared branch out of the operands of a junction, if there is one. -/
def pullOutShared? : Cond κ → Option (Cond κ)
  | compound j operands =>
    (j.mostShared? operands).map fun common ↦ j.make (j.pullOut common operands)
  | _ => none

end Cond

namespace Junction

open Cond

private theorem breadthAll_branches_le (j : Junction) (c : Cond κ) :
    breadthAll (j.branches c) ≤ c.breadth := by
  cases c with
  | compound i operands =>
    rw [branches]
    split
    · exact Nat.le_max_right ..
    · simp [breadthAll]
  | _ => simp [branches, breadthAll]

/-- What is better than a condition found before is that condition or a new one that is worth
taking. -/
theorem better?_cases {count : Cond κ → Nat} {best? : Option (Cond κ)} {c best : Cond κ}
    (h : better? count best? c = some best) : best? = some best ∨ (best = c ∧
      (2 ≤ count c ∨ ∃ before, best? = some before ∧ count before < count c)) := by
  cases best? with
  | none =>
    rw [better?, Option.ite_none_right_eq_some] at h
    cases h.2
    exact .inr ⟨rfl, .inl h.1⟩
  | some before =>
    rw [better?] at h
    split at h
    · next hlt =>
      cases h
      exact .inr ⟨rfl, .inr ⟨before, rfl, hlt⟩⟩
    · exact .inl h

/-- The condition with the greatest count is one of the candidates, and counted at least twice. -/
theorem mem_and_two_le_of_mostCounted? {count : Cond κ → Nat} {candidates : List (Cond κ)}
    {c : Cond κ} (h : mostCounted? count candidates = some c) :
    c ∈ candidates ∧ 2 ≤ count c := by
  -- A condition found before is one of the candidates that the fold has left behind.
  suffices ∀ passed best?, (∀ best, best? = some best → best ∈ passed ∧ 2 ≤ count best) →
      ∀ best, candidates.foldl (better? count) best? = some best →
        best ∈ passed ++ candidates ∧ 2 ≤ count best from this [] none nofun c h
  clear h
  induction candidates with
  | nil =>
    intro passed best? hbest best h
    rw [List.append_nil]
    exact hbest best h
  | cons d candidates ih =>
    intro passed best? hbest best h
    rw [List.append_cons]
    refine ih (passed ++ [d]) (better? count best? d) ?_ best h
    intro better hbetter
    rcases better?_cases hbetter with hbefore | ⟨rfl, hcount⟩
    · obtain ⟨hmem, htwo⟩ := hbest better hbefore
      exact ⟨List.mem_append_left _ hmem, htwo⟩
    · refine ⟨List.mem_append_right _ (List.mem_singleton_self _), ?_⟩
      rcases hcount with htwo | ⟨before, hbefore, hlt⟩
      · exact htwo
      · have htwo := (hbest before hbefore).2
        omega

/-- The branch that most operands share is a branch of one of them. -/
theorem mem_of_mostShared? {j : Junction} {operands : List (Cond κ)} {common : Cond κ}
    (h : j.mostShared? operands = some common) : common ∈ operands.flatMap j.branches :=
  (OrderedSet.toList_ofList_sublist _).subset (mem_and_two_le_of_mostCounted? h).1

private theorem breadthAll_otherBranches_add (j : Junction) (common operand : Cond κ) :
    breadthAll (j.otherBranches common operand) +
      common.breadth * (j.branches operand).countP (· == common) =
      breadthAll (j.branches operand) := by
  rw [otherBranches]
  induction j.branches operand with
  | nil => rfl
  | cons branch rest ih =>
    by_cases h : (branch == common) = true
    · have hb := breadth_eq_of_beq h
      rw [List.filter_cons_of_neg (by simp [h]), List.countP_cons_of_pos (p := (· == common)) h,
        Nat.mul_add, breadthAll]
      omega
    · rw [List.filter_cons_of_pos (by simp [h]), List.countP_cons_of_neg (p := (· == common)) h,
        breadthAll, breadthAll]
      omega

private theorem breadthAll_sharing_ge (j : Junction) (common : Cond κ) (operands : List (Cond κ)) :
    breadthAll ((j.sharing common operands).flatMap (j.otherBranches common)) +
      common.breadth * j.shareCount operands common ≤
      breadthAll (j.sharing common operands) := by
  induction operands with
  | nil => simp [sharing, shareCount, breadthAll]
  | cons operand rest ih =>
    have hadd := j.breadthAll_otherBranches_add common operand
    have hle := j.breadthAll_branches_le operand
    have hcount : j.shareCount (operand :: rest) common =
        (j.branches operand).countP (· == common) + j.shareCount rest common := by
      simp [shareCount, List.countP_append]
    rw [sharing] at ih ⊢
    rw [hcount, Nat.mul_add]
    by_cases h : j.hasBranch common operand = true
    · rw [List.filter_cons_of_pos h, List.flatMap_cons, breadthAll_append, breadthAll]
      omega
    · have hzero : (j.branches operand).countP (· == common) = 0 := by
        rw [List.countP_eq_zero]
        exact List.any_eq_false.mp (Bool.eq_false_iff.mpr h)
      rw [List.filter_cons_of_neg h, hzero]
      omega

/-- A junction with its absorbing constant among the operands is that constant. -/
theorem make_eq_absorbing_of_mem (j : Junction) {operands : List (Cond κ)}
    (h : .fixed j.absorbing ∈ operands) : j.make operands = .fixed j.absorbing := by
  have hmem : .fixed j.absorbing ∈ operands.flatMap j.parts := by
    refine List.mem_flatMap.mpr ⟨_, h, ?_⟩
    simp [parts, absorbing]
  have hcontains : (j.flatten operands).contains (.fixed j.absorbing) = true :=
    OrderedSet.contains_insertAll_of_mem _ hmem (beq_self_eq_true _)
  refine j.make_cases operands ?_ ?_ ?_ ?_
  · intro hnil
    simp [OrderedSet.contains, hnil] at hcontains
  · intro only hsingle
    obtain ⟨b, hb, hbeq⟩ := OrderedSet.contains_iff.mp hcontains
    rw [hsingle, List.mem_singleton] at hb
    subst hb
    cases b <;> simp_all [beq_def, equal]
  · exact fun _ ↦ rfl
  · intro _ hundecided
    simp [isDecided, hcontains] at hundecided

private theorem breadthAll_map_remainder_le (j : Junction) (common : Cond κ)
    (operands : List (Cond κ)) (h : ∀ operand ∈ operands, j.otherBranches common operand ≠ []) :
    breadthAll (operands.map (j.remainder common)) ≤
      breadthAll (operands.flatMap (j.otherBranches common)) := by
  induction operands with
  | nil => exact Nat.le_refl _
  | cons operand rest ih =>
    have htail := ih fun c hc ↦ h c (List.mem_cons_of_mem _ hc)
    have hhead := j.dual.breadth_make_le (j.otherBranches common operand)
    have hpos := one_le_breadthAll (h operand List.mem_cons_self)
    rw [List.map_cons, List.flatMap_cons, breadthAll_append, breadthAll, remainder]
    omega

private theorem breadth_factored_lt (j : Junction) {common : Cond κ} {operands : List (Cond κ)}
    (h : 2 ≤ j.shareCount operands common) :
    (j.factored common operands).breadth < breadthAll (j.sharing common operands) := by
  have hshare := j.breadthAll_sharing_ge common operands
  have htwice : common.breadth * 2 ≤ common.breadth * j.shareCount operands common :=
    Nat.mul_le_mul_left _ h
  have hpos := common.one_le_breadth
  rw [factored]
  by_cases hall : ∀ operand ∈ j.sharing common operands, j.otherBranches common operand ≠ []
  · have hremain := j.breadthAll_map_remainder_le common _ hall
    have hjoin := j.breadth_make_le ((j.sharing common operands).map (j.remainder common))
    have hmake := j.dual.breadth_make_le
      [common, j.make ((j.sharing common operands).map (j.remainder common))]
    have hsome : j.sharing common operands ≠ [] := by
      intro hnil
      rw [hnil, breadthAll] at hshare
      omega
    have hbranches :
        1 ≤ breadthAll ((j.sharing common operands).flatMap (j.otherBranches common)) := by
      apply one_le_breadthAll
      obtain ⟨operand, hmem⟩ := List.exists_mem_of_ne_nil _ hsome
      obtain ⟨branch, hbranch⟩ := List.exists_mem_of_ne_nil _ (hall operand hmem)
      exact List.ne_nil_of_mem (List.mem_flatMap.mpr ⟨operand, hmem, hbranch⟩)
    simp only [breadthAll] at hmake
    omega
  · simp only [Classical.not_forall, ne_eq, Classical.not_not] at hall
    obtain ⟨operand, hmem, hnil⟩ := hall
    have hdecided : j.make ((j.sharing common operands).map (j.remainder common)) =
        .fixed j.absorbing := by
      refine j.make_eq_absorbing_of_mem (List.mem_map.mpr ⟨operand, hmem, ?_⟩)
      rw [remainder, hnil, ← neutral_dual]
      rfl
    have hmake := j.dual.breadth_make_le_parts [common, .fixed j.absorbing]
    have hparts := j.dual.breadthAll_parts_le common
    have hneutral : j.dual.parts (.fixed j.absorbing : Cond κ) = [] := by simp [parts]
    rw [hdecided]
    simp only [List.flatMap_cons, List.flatMap_nil, hneutral, List.append_nil] at hmake
    omega

end Junction

namespace Cond

/-- Pulling out a shared branch removes a leaf. -/
theorem breadth_pullOutShared?_lt {c d : Cond κ} (h : pullOutShared? c = some d) :
    d.breadth < c.breadth := by
  cases c with
  | compound j operands =>
    obtain ⟨common, hshared, rfl⟩ := Option.map_eq_some_iff.mp h
    have htwice := (Junction.mem_and_two_le_of_mostCounted? hshared).2
    have hfactored := j.breadth_factored_lt htwice
    have hmake := j.breadth_make_le (j.pullOut common operands)
    have hpull := breadthAll_perm (j.pullOut_perm common operands)
    have hfilter := breadthAll_perm
      (List.filter_append_perm (j.hasBranch common) operands)
    have hpos := (j.factored common operands).one_le_breadth
    rw [breadthAll_append, ← Junction.sharing] at hfilter
    rw [breadthAll] at hpull
    rw [breadth]
    omega
  | _ => simp [pullOutShared?] at h

end Cond

end Criteria
