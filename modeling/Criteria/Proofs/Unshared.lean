import Mathlib.Data.List.Flatten
import Criteria.Proofs.Equivalence
import Criteria.Proofs.NormalForm

/-!
# Factored conditions share no branch

Factoring goes on until no junction has a branch to pull out. What is built on the way may bring new
junctions to the top, but below them everything has been factored before. Main statements: in a
factored condition, no branch of an operand of a junction is found among those of another operand,
and factoring it again gives it back.
-/

namespace Criteria

variable {κ : Type} [CustomCondition κ]

/-! ## Junctions without a shared branch -/

namespace Junction

/-- No condition equals branches of two operands. -/
def SharesNothing (j : Junction) (operands : List (Cond κ)) : Prop :=
  operands.Pairwise fun x y ↦ ∀ c, ¬(j.hasBranch c x = true ∧ j.hasBranch c y = true)

private theorem foldl_better?_some_ne_none {count : Cond κ → Nat} (best : Cond κ)
    (candidates : List (Cond κ)) : candidates.foldl (better? count) (some best) ≠ none := by
  induction candidates generalizing best with
  | nil => exact Option.some_ne_none best
  | cons c candidates ih =>
    rw [List.foldl_cons, better?]
    split
    · exact ih c
    · exact ih best

private theorem count_lt_two_of_mostCounted?_eq_none {count : Cond κ → Nat}
    {candidates : List (Cond κ)}
    (h : mostCounted? count candidates = none) {c : Cond κ} (hc : c ∈ candidates) :
    count c < 2 := by
  induction candidates with
  | nil => cases hc
  | cons d candidates ih =>
    rw [mostCounted?, List.foldl_cons, better?] at h
    split at h
    · exact absurd h (foldl_better?_some_ne_none d candidates)
    · next hd =>
      rcases List.mem_cons.mp hc with rfl | hc
      · exact Nat.lt_of_not_le hd
      · exact ih h hc

private theorem two_le_shareCount {j : Junction} {operands : List (Cond κ)} {x y c : Cond κ}
    (hsub : [x, y].Sublist operands) (hx : j.hasBranch c x = true)
    (hy : j.hasBranch c y = true) : 2 ≤ j.shareCount operands c := by
  have hle : j.shareCount [x, y] c ≤ j.shareCount operands c := (hsub.flatMap _).countP_le
  have hcount : j.shareCount [x, y] c =
      (j.branches x).countP (· == c) + (j.branches y).countP (· == c) := by
    simp [shareCount]
  have hxpos : 0 < (j.branches x).countP (· == c) :=
    List.countP_pos_iff.mpr (List.any_eq_true.mp hx)
  have hypos : 0 < (j.branches y).countP (· == c) :=
    List.countP_pos_iff.mpr (List.any_eq_true.mp hy)
  omega

variable [LawfulCustomCondition κ]

/-- Equal conditions are counted alike. -/
theorem shareCount_congr {j : Junction} {operands : List (Cond κ)} {c d : Cond κ}
    (h : (c == d) = true) : j.shareCount operands c = j.shareCount operands d := by
  have hfun : (fun branch : Cond κ ↦ branch == c) = (· == d) :=
    funext fun branch ↦ BEq.congr_right h
  rw [shareCount, shareCount, hfun]

/-- If there is no branch to pull out, the operands share none. -/
theorem sharesNothing_of_mostShared?_eq_none {j : Junction} {operands : List (Cond κ)}
    (h : j.mostShared? operands = none) : j.SharesNothing operands := by
  apply List.pairwise_iff_forall_sublist.mpr
  rintro x y hsub c ⟨hx, hy⟩
  obtain ⟨branch, hbranch, hbeq⟩ := List.any_eq_true.mp hx
  have hmem : branch ∈ operands.flatMap j.branches :=
    List.mem_flatMap.mpr ⟨x, hsub.subset List.mem_cons_self, hbranch⟩
  -- The set of candidates holds the first spelling of the branch.
  have hcontains := OrderedSet.contains_insertAll_of_mem .empty hmem (beq_self_eq_true branch)
  obtain ⟨candidate, hcandidate, hfirst⟩ := OrderedSet.contains_iff.mp hcontains
  have hlt := count_lt_two_of_mostCounted?_eq_none h hcandidate
  rw [shareCount_congr (BEq.trans hfirst hbeq)] at hlt
  exact absurd (two_le_shareCount hsub hx hy) (Nat.not_le_of_lt hlt)

end Junction

namespace Cond

/-! ## Factored conditions -/

/-- A node without a branch to pull out. -/
def Unshared (node : Cond κ) : Prop := node.pullOutShared? = none

private theorem unshared_not {c : Cond κ} (h : c.Everywhere Unshared) : c.not.Unshared := by
  cases c with
  | negation operand => exact (everywhere_negation.mp h).2.self
  | fixed truth => rfl
  | test key t => rfl
  | custom leaf => rfl
  | compound j operands => rfl

/-- After factoring, no node has a branch to pull out. -/
theorem everywhere_unshared_factor (c : Cond κ) : c.factor.Everywhere Unshared := by
  induction c using factor_induction with
  | fixed truth =>
    rw [factor_fixed]
    exact everywhere_fixed.mpr rfl
  | test key t =>
    rw [factor_test]
    exact everywhere_test.mpr rfl
  | custom leaf =>
    rw [factor_custom]
    exact everywhere_custom.mpr rfl
  | negation operand ih =>
    rw [factor_negation]
    exact .not (unshared_not ih) ih
  | compound j operands ih ihshorter =>
    rw [factor_compound]
    split
    · next hnone =>
      -- Building may bring junctions of the operands to the top, but these have been factored.
      apply Everywhere.make (P := Unshared) hnone
      rw [List.forall_mem_map]
      exact ih
    · next shorter hshorter => exact ihshorter shorter hshorter

/-- A condition in normal form, of which no node has a branch to pull out, is left as it is. -/
theorem factor_eq_self {c : Cond κ} (hnormal : c.Everywhere IsNormal)
    (hunshared : c.Everywhere Unshared) : c.factor = c := by
  induction c with
  | fixed truth => exact factor_fixed truth
  | test key t => exact factor_test key t
  | custom leaf => exact factor_custom leaf
  | negation operand ih =>
    have hoperand := ih (everywhere_negation.mp hnormal).2 (everywhere_negation.mp hunshared).2
    rw [factor_negation, hoperand, IsNormal.not_eq hnormal.self]
  | compound j operands ih =>
    have hoperands : operands.map factor = operands.map id := by
      apply List.map_congr_left
      intro operand hmem
      exact ih operand hmem ((everywhere_compound.mp hnormal).2 operand hmem)
        ((everywhere_compound.mp hunshared).2 operand hmem)
    rw [factor_compound, hoperands, List.map_id, IsNormal.make_eq hnormal.self, hunshared.self]

/-- If the equality of custom conditions is an equivalence, a factored condition shares no branch
between two operands of a junction. Factoring it again gives it back. -/
theorem factor_reaches_fixpoint [LawfulCustomCondition κ] {c : Cond κ} (h : c.Reachable) :
    (∀ j operands, .compound j operands ∈ c.factor.nodes → j.SharesNothing operands) ∧
      c.factor.factor = c.factor := by
  have hunshared := everywhere_unshared_factor c
  have hnormal := (Reachable.invariant.factor h).everywhere_isNormal
  constructor
  · intro j operands hnode
    apply Junction.sharesNothing_of_mostShared?_eq_none
    exact Option.map_eq_none_iff.mp (hunshared _ hnode)
  · exact factor_eq_self hnormal hunshared

/-- A disjunction whose operands share a custom condition shares nothing once it is factored. -/
theorem factor_reaches_fixpoint_shared : ∃ c : Cond Tagged,
    c = .or [.and [.custom ⟨"x"⟩, .test ⟨"a", rfl⟩ .isNull],
      .and [.custom ⟨"x"⟩, Cond.not (.test ⟨"b", rfl⟩ .isNull)]] ∧
      (∀ j operands, .compound j operands ∈ c.factor.nodes → j.SharesNothing operands) ∧
      c.factor.factor = c.factor := by
  refine ⟨_, rfl, factor_reaches_fixpoint ?_⟩
  have hnull (key : RecordKey) : (.test key .isNull : Cond Tagged).Reachable :=
    .test key (by decide)
  exact .make_pair .or (.make_pair .and (.custom _) (hnull _))
    (.make_pair .and (.custom _) (.not (hnull _)))

end Cond

end Criteria
