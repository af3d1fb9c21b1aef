import Criteria.Proofs.NormalForm

/-!
# Leaves

The leaves of a condition are its tests and custom conditions. Building adds no leaf, and in normal
form every branch ends in one, unless the whole condition is a constant. Main statement: factoring
ends, since a branch that is pulled out saves a leaf; its result is the condition itself or has
fewer leaves.
-/

namespace Criteria

variable {κ : Type} [CustomCondition κ]

namespace Cond

/-- Whether the condition is a test or a custom condition. -/
def isLeaf : Cond κ → Bool
  | test _ _ | custom _ => true
  | _ => false

/-- The number of leaves, each counted as often as it occurs. -/
def leaves (c : Cond κ) : Nat := c.nodes.countP isLeaf

/-- The number of leaves of several conditions. -/
def leavesAll (operands : List (Cond κ)) : Nat := (nodesAll operands).countP isLeaf

/-- A constant has no leaf. -/
@[simp] theorem leaves_fixed (truth : Bool) : (fixed truth : Cond κ).leaves = 0 := rfl

/-- A negation has the leaves of what it negates. -/
@[simp] theorem leaves_negation (operand : Cond κ) : (negation operand).leaves = operand.leaves :=
  List.countP_cons_of_neg nofun

/-- A compound has the leaves of its operands. -/
@[simp] theorem leaves_compound (j : Junction) (operands : List (Cond κ)) :
    (compound j operands).leaves = leavesAll operands := List.countP_cons_of_neg nofun

/-- No conditions have no leaf. -/
@[simp] theorem leavesAll_nil : leavesAll ([] : List (Cond κ)) = 0 := rfl

/-- The leaves of several conditions are counted condition by condition. -/
@[simp] theorem leavesAll_cons (operand : Cond κ) (rest : List (Cond κ)) :
    leavesAll (operand :: rest) = operand.leaves + leavesAll rest := List.countP_append

/-- The leaves of two lists are counted one list after the other. -/
@[simp] theorem leavesAll_append (xs ys : List (Cond κ)) :
    leavesAll (xs ++ ys) = leavesAll xs + leavesAll ys := by
  rw [leavesAll, nodesAll_eq_flatMap, List.flatMap_append, List.countP_append,
    ← nodesAll_eq_flatMap, ← nodesAll_eq_flatMap]
  rfl

private theorem leavesAll_le_of_sublist {xs ys : List (Cond κ)} (h : xs.Sublist ys) :
    leavesAll xs ≤ leavesAll ys := by
  induction h with
  | slnil => exact Nat.le_refl _
  | cons y _ ih => rw [leavesAll_cons]; omega
  | cons_cons y _ ih => rw [leavesAll_cons, leavesAll_cons]; omega

/-- Negating does not change the number of leaves. -/
@[simp] theorem leaves_not (c : Cond κ) : c.not.leaves = c.leaves := by
  cases c with
  | fixed truth => rfl
  | negation operand => exact (leaves_negation operand).symm
  | test key t => exact leaves_negation _
  | custom leaf => exact leaves_negation _
  | compound j operands => exact leaves_negation _

/-- Negating several conditions does not change the number of leaves. -/
theorem leavesAll_map_not (operands : List (Cond κ)) :
    leavesAll (operands.map Cond.not) = leavesAll operands := by
  induction operands with
  | nil => rfl
  | cons operand rest ih => rw [List.map_cons, leavesAll_cons, leavesAll_cons, leaves_not, ih]

end Cond

namespace Junction

open Cond

private theorem leavesAll_parts (j : Junction) (operand : Cond κ) :
    leavesAll (j.parts operand) = operand.leaves := by
  rcases j.parts_cases operand with ⟨rfl, heq⟩ | ⟨operands, rfl, heq⟩ | heq
  · rw [heq, leavesAll_nil, leaves_fixed]
  · rw [heq, leaves_compound]
  · rw [heq, leavesAll_cons, leavesAll_nil, Nat.add_zero]

private theorem leavesAll_flatten_le (j : Junction) (operands : List (Cond κ)) :
    leavesAll (j.flatten operands).toList ≤ leavesAll operands := by
  have hparts : leavesAll (operands.flatMap j.parts) = leavesAll operands := by
    induction operands with
    | nil => rfl
    | cons operand rest ih =>
      rw [List.flatMap_cons, leavesAll_append, leavesAll_parts, ih, leavesAll_cons]
  rw [← hparts]
  exact leavesAll_le_of_sublist (OrderedSet.toList_ofList_sublist _)

/-- A junction has no more leaves than its operands. -/
theorem leaves_make_le (j : Junction) (operands : List (Cond κ)) :
    (j.make operands).leaves ≤ leavesAll operands := by
  have hle := j.leavesAll_flatten_le operands
  refine j.make_cases operands ?_ ?_ ?_ ?_
  · intro _
    rw [leaves_fixed]
    omega
  · intro c hsingle
    rwa [hsingle, leavesAll_cons, leavesAll_nil] at hle
  · intro _
    rw [leaves_fixed]
    omega
  · intro _ _
    rwa [leaves_compound]

end Junction

namespace Cond

/-! ## Rewriting and leaves -/

private theorem leavesAll_le_of_forall₂ {operands others : List (Cond κ)}
    (h : List.Forall₂ (fun c d ↦ d.leaves ≤ c.leaves) operands others) :
    leavesAll others ≤ leavesAll operands := by
  induction h with
  | nil => exact Nat.le_refl _
  | cons hfirst _ ih =>
    rw [leavesAll_cons, leavesAll_cons]
    omega

/-- Rewriting parts without adding leaves adds no leaf. -/
theorem leaves_rewriting : Rewriting fun c d : Cond κ ↦ d.leaves ≤ c.leaves where
  refl _ := Nat.le_refl _
  trans hab hbc := Nat.le_trans hbc hab
  negation h := by rwa [leaves_not, leaves_negation]
  compound j operands others h := by
    rw [leaves_compound]
    exact Nat.le_trans (j.leaves_make_le others) (leavesAll_le_of_forall₂ h)

/-- Of a condition that can be built, the second one is one too, and it is the same or has fewer
leaves. -/
def ShrinksTo (c d : Cond κ) : Prop :=
  c.Reachable → d.Reachable ∧ (d = c ∨ d.leaves < c.leaves)

private theorem eq_or_leavesAll_lt {operands others : List (Cond κ)}
    (h : List.Forall₂ (fun c d ↦ d = c ∨ d.leaves < c.leaves) operands others) :
    others = operands ∨ leavesAll others < leavesAll operands := by
  induction h with
  | nil => exact .inl rfl
  | cons hfirst _ ih =>
    rw [leavesAll_cons, leavesAll_cons]
    rcases hfirst with rfl | hfirst
    · rcases ih with rfl | ih
      · exact .inl rfl
      · right
        omega
    · right
      rcases ih with rfl | ih
      · omega
      · omega

/-- A condition shrinks when its parts are replaced by what they shrink to. -/
theorem shrinksTo_rewriting : Rewriting (ShrinksTo (κ := κ)) where
  refl _ h := ⟨h, .inl rfl⟩
  trans hab hbc h := by
    obtain ⟨hb, hshrunk⟩ := hab h
    obtain ⟨hc, hshrunkmore⟩ := hbc hb
    refine ⟨hc, ?_⟩
    rcases hshrunk with rfl | hlt
    · exact hshrunkmore
    · rcases hshrunkmore with rfl | hltmore
      · exact .inr hlt
      · exact .inr (Nat.lt_trans hltmore hlt)
  negation {operand other} hshrinks h := by
    obtain ⟨hother, hshrunk⟩ := hshrinks (Reachable.invariant.negated h)
    refine ⟨.not hother, ?_⟩
    rw [leaves_not, leaves_negation]
    rcases hshrunk with rfl | hlt
    · exact .inl (IsNormal.not_eq h.everywhere_isNormal.self)
    · exact .inr hlt
  compound j operands others hshrinks h := by
    have hreachable := Reachable.invariant.operand h
    have hboth := (List.forall₂_and_left _ _).mpr ⟨hreachable, hshrinks⟩
    have hshrunk := hboth.imp fun c d hcd ↦ (hcd.2 hcd.1).2
    refine ⟨Reachable.invariant.rewriting.compound j ?_ h, ?_⟩
    · exact hshrinks.imp fun c d hcd hc ↦ (hcd hc).1
    · rcases eq_or_leavesAll_lt hshrunk with rfl | hlt
      · exact .inl (IsNormal.make_eq h.everywhere_isNormal.self)
      · rw [leaves_compound]
        exact .inr (Nat.lt_of_le_of_lt (j.leaves_make_le others) hlt)

/-! ## Leaves of factored conditions -/

private theorem leavesAll_le_breadthAll {operands : List (Cond κ)}
    (h : ∀ operand ∈ operands, operand.leaves ≤ operand.breadth) :
    leavesAll operands ≤ breadthAll operands := by
  induction operands with
  | nil => exact Nat.le_refl _
  | cons operand rest ih =>
    rw [List.forall_mem_cons] at h
    have hrest := ih h.2
    rw [leavesAll_cons, breadthAll]
    omega

private theorem leaves_le_breadth (c : Cond κ) : c.leaves ≤ c.breadth := by
  induction c with
  | fixed truth => exact Nat.zero_le _
  | test key t => exact Nat.le_refl _
  | custom leaf => exact Nat.le_refl _
  | negation operand ih => rwa [leaves_negation, breadth]
  | compound j operands ih =>
    have hall := leavesAll_le_breadthAll ih
    rw [leaves_compound, breadth]
    omega

private theorem breadthAll_le_leavesAll {operands : List (Cond κ)}
    (h : ∀ operand ∈ operands, operand.breadth ≤ operand.leaves) :
    breadthAll operands ≤ leavesAll operands := by
  induction operands with
  | nil => exact Nat.le_refl _
  | cons operand rest ih =>
    rw [List.forall_mem_cons] at h
    have hrest := ih h.2
    rw [leavesAll_cons, breadthAll]
    omega

private theorem breadth_le_leaves {c : Cond κ} (h : c.Everywhere IsNormal)
    (hfixed : ∀ truth, c ≠ fixed truth) : c.breadth ≤ c.leaves := by
  induction c with
  | fixed truth => exact absurd rfl (hfixed truth)
  | test key t => exact Nat.le_refl _
  | custom leaf => exact Nat.le_refl _
  | negation operand ih =>
    rw [everywhere_negation] at h
    rw [leaves_negation, breadth]
    exact ih h.2 h.1.1
  | compound j operands ih =>
    rw [everywhere_compound] at h
    have hall : breadthAll operands ≤ leavesAll operands := by
      apply breadthAll_le_leavesAll
      intro operand hmem
      exact ih operand hmem (h.2 operand hmem) (h.1.notFixed operand hmem)
    have hsome : operands ≠ [] := by
      rintro rfl
      exact absurd h.1.several (by simp)
    have hpos := one_le_breadthAll hsome
    rw [leaves_compound, breadth]
    omega

/-- Pulling out a shared branch saves a leaf. -/
theorem leaves_pullOutShared?_lt {c d : Cond κ} (h : c.Everywhere IsNormal)
    (hd : c.pullOutShared? = some d) : d.leaves < c.leaves := by
  have hfixed : ∀ truth, c ≠ fixed truth := by
    rintro truth rfl
    cases hd
  calc d.leaves ≤ d.breadth := d.leaves_le_breadth
    _ < c.breadth := breadth_pullOutShared?_lt hd
    _ ≤ c.leaves := breadth_le_leaves h hfixed

/-- Factoring the second condition goes on with the first one: with what a negation negates, with an
operand of a compound, or with what is left of the compound of factored operands after a branch is
pulled out. -/
inductive FactoringCall : Cond κ → Cond κ → Prop
  | negated (operand : Cond κ) : FactoringCall operand (.negation operand)
  | operand {j : Junction} {operands : List (Cond κ)} {c : Cond κ} (h : c ∈ operands) :
    FactoringCall c (.compound j operands)
  | shorter {j : Junction} {operands : List (Cond κ)} {d : Cond κ}
    (h : pullOutShared? (j.make (operands.map factor)) = some d) :
    FactoringCall d (.compound j operands)

/-- Factoring never goes on for ever: each call saves a leaf, or is for a part. -/
theorem wellFounded_factoringCall : WellFounded (FactoringCall (κ := κ)) := by
  let measure (c : Cond κ) : Nat × Nat := (c.breadth, sizeOf c)
  apply Subrelation.wf _ (invImage measure (Prod.lex Nat.lt_wfRel Nat.lt_wfRel)).wf
  intro d c hcall
  cases hcall with
  | negated => exact operand_lex_negation d
  | @operand j operands _ h => exact operand_lex_compound h j
  | shorter h => exact Prod.Lex.left _ _ (breadth_lt_of_pullOutShared?_map_factor h)

/-- Pulling out a branch saves a leaf, factoring ends, and what it gives is the condition itself or
has fewer leaves. -/
theorem factor_shrinks {c : Cond κ} (h : c.Reachable) :
    (∀ d, c.pullOutShared? = some d → d.leaves < c.leaves) ∧ Acc FactoringCall c ∧
      (c.factor = c ∨ c.factor.leaves < c.leaves) := by
  have hstep {c d : Cond κ} (hd : c.pullOutShared? = some d) : c.ShrinksTo d := fun h ↦
    ⟨Reachable.invariant.pullOutShared? h hd,
      .inr (leaves_pullOutShared?_lt h.everywhere_isNormal hd)⟩
  refine ⟨fun d ↦ leaves_pullOutShared?_lt h.everywhere_isNormal,
    wellFounded_factoringCall.apply c, ?_⟩
  exact (shrinksTo_rewriting.factor hstep c h).2

/-- A conjunction whose operands share a disjunct that is itself a conjunction of two tests loses
leaves when this is pulled out. -/
theorem factor_shrinks_compound : ∃ c : Cond Empty,
    c = .and [.or [.and [.test ⟨"a", rfl⟩ .isTrue, .test ⟨"b", rfl⟩ .isTrue],
        .test ⟨"c", rfl⟩ .isNull],
      .or [.and [.test ⟨"a", rfl⟩ .isTrue, .test ⟨"b", rfl⟩ .isTrue], .test ⟨"d", rfl⟩ .isNull]] ∧
      (∃ d, c.pullOutShared? = some d ∧ d.leaves < c.leaves) ∧ Acc FactoringCall c ∧
      (c.factor = c ∨ c.factor.leaves < c.leaves) := by
  have htrue (key : RecordKey) : (.test key .isTrue : Cond Empty).Reachable :=
    .test key (by decide)
  have hnull (key : RecordKey) : (.test key .isNull : Cond Empty).Reachable :=
    .test key (by decide)
  have hshared := Reachable.make_pair .and (htrue ⟨"a", rfl⟩) (htrue ⟨"b", rfl⟩)
  obtain ⟨hpull, hends, hshrinks⟩ := factor_shrinks (.make_pair .and
    (.make_pair .or hshared (hnull ⟨"c", rfl⟩)) (.make_pair .or hshared (hnull ⟨"d", rfl⟩)))
  refine ⟨_, rfl, (Option.isSome_iff_exists.mp ?_).imp fun d hd ↦ ⟨hd, hpull d hd⟩, hends, hshrinks⟩
  decide +kernel

end Cond

end Criteria
