import Mathlib.Data.List.Nodup
import Criteria.Proofs.Leaves

/-!
# Merged conditions leave nothing to merge

Merging a part may make it a junction of the same kind as the one around it, whose operands then
take part in the merging there. What is built in the end has been merged at every junction. Main
statement: no junction of a merged condition has two tests of equality or membership of one key to
merge; merging the condition again gives it back, and it is the condition it was made from or has
fewer leaves.
-/

namespace Criteria

variable {κ : Type} [CustomCondition κ]

/-! ## Merged operands -/

namespace Cond

private theorem leaves_of_membership? {c : Cond κ} {found : RecordKey × List Value}
    (h : c.membership? = some found) : c.leaves = 1 := by
  cases c with
  | test key t => rfl
  | fixed truth => cases h
  | custom leaf => cases h
  | negation operand => cases h
  | compound i operands => cases h

end Cond

namespace Junction

private theorem leaves_of_mergeable? {j : Junction} {c : Cond κ} {found : RecordKey × List Value}
    (h : j.mergeable? c = some found) : c.leaves = 1 := by
  cases j with
  | or => exact Cond.leaves_of_membership? h
  | and =>
    obtain ⟨operand, rfl, hmembership⟩ := exists_negation_of_mergeable?_and h
    rw [Cond.leaves_negation, Cond.leaves_of_membership? hmembership]

private theorem merged_cases (j : Junction) (key : RecordKey) (values : List Value) :
    (∃ truth, (j.merged key values : Cond κ) = .fixed truth) ∨
      ∃ members, j.mergeable? (j.merged key values : Cond κ) = some (key, members) := by
  cases j with
  | or =>
    rw [merged]
    refine Cond.memberOf_cases key values ?_ ?_ ?_
    · exact fun _ ↦ .inl ⟨false, rfl⟩
    · exact fun v _ ↦ .inr ⟨[v], rfl⟩
    · exact fun _ ↦ .inr ⟨_, rfl⟩
  | and =>
    rw [merged]
    refine Cond.memberOf_cases key values ?_ ?_ ?_
    · exact fun _ ↦ .inl ⟨true, rfl⟩
    · exact fun v _ ↦ .inr ⟨[v], rfl⟩
    · exact fun _ ↦ .inr ⟨_, rfl⟩

private theorem leaves_merged_le (j : Junction) (key : RecordKey) (values : List Value) :
    (j.merged key values : Cond κ).leaves ≤ 1 := by
  rcases j.merged_cases (κ := κ) key values with ⟨truth, heq⟩ | ⟨members, heq⟩
  · rw [heq]
    exact Nat.zero_le 1
  · exact Nat.le_of_eq (leaves_of_mergeable? heq)

private theorem merged_ne_compound (j i : Junction) (key : RecordKey) (values : List Value)
    (operands : List (Cond κ)) : j.merged key values ≠ .compound i operands := by
  intro hcompound
  rcases j.merged_cases (κ := κ) key values with ⟨truth, heq⟩ | ⟨members, heq⟩
  · rw [heq] at hcompound
    cases hcompound
  · rw [hcompound] at heq
    cases j <;> cases heq

/-- An operand that cannot be merged has no key. -/
theorem mergeableKeys_cons_of_eq_none {j : Junction} {c : Cond κ} (h : j.mergeable? c = none)
    (rest : List (Cond κ)) : j.mergeableKeys (c :: rest) = j.mergeableKeys rest := by
  rw [mergeableKeys, List.filterMap_cons_none (by rw [h]; rfl)]
  rfl

/-- An operand that can be merged has a key. -/
theorem mergeableKeys_cons_of_eq_some {j : Junction} {c : Cond κ} {key : RecordKey}
    {values : List Value} (h : j.mergeable? c = some (key, values)) (rest : List (Cond κ)) :
    j.mergeableKeys (c :: rest) = key :: j.mergeableKeys rest := by
  rw [mergeableKeys, List.filterMap_cons_some (by rw [h]; rfl)]
  rfl

/-- The keys of merged operands are different from each other and from those seen before. -/
theorem nodup_mergeableKeys_mergeFrom {j : Junction} {valuesOn : RecordKey → List Value}
    {seen : List RecordKey} {operands : List (Cond κ)} :
    (j.mergeableKeys (j.mergeFrom valuesOn seen operands)).Nodup ∧
      ∀ key ∈ j.mergeableKeys (j.mergeFrom valuesOn seen operands), key ∉ seen := by
  induction operands generalizing seen with
  | nil => exact ⟨List.nodup_nil, List.forall_mem_nil _⟩
  | cons operand rest ih =>
    rw [mergeFrom]
    cases hoperand : j.mergeable? operand with
    | none =>
      dsimp only
      rw [mergeableKeys_cons_of_eq_none hoperand]
      exact ih
    | some found =>
      obtain ⟨key, values⟩ := found
      dsimp only
      split
      · exact ih
      · next hnew =>
        obtain ⟨hnodup, hfresh⟩ := @ih (key :: seen)
        have hunseen : ∀ k ∈ j.mergeableKeys (j.mergeFrom valuesOn (key :: seen) rest),
            k ≠ key ∧ k ∉ seen := by
          intro k hk
          rw [← not_or, ← List.mem_cons]
          exact hfresh k hk
        rcases j.merged_cases (κ := κ) key (valuesOn key) with ⟨truth, heq⟩ | ⟨members, heq⟩
        · rw [mergeableKeys_cons_of_eq_none (by rw [heq]; cases j <;> rfl)]
          exact ⟨hnodup, fun k hk ↦ (hunseen k hk).2⟩
        · rw [mergeableKeys_cons_of_eq_some heq, List.nodup_cons, List.forall_mem_cons]
          exact ⟨⟨fun hk ↦ (hunseen key hk).1 rfl, hnodup⟩, hnew, fun k hk ↦ (hunseen k hk).2⟩

private theorem leavesAll_mergeFrom_le {j : Junction} {valuesOn : RecordKey → List Value}
    {seen : List RecordKey} {operands : List (Cond κ)} :
    Cond.leavesAll (j.mergeFrom valuesOn seen operands) ≤ Cond.leavesAll operands := by
  induction operands generalizing seen with
  | nil => exact Nat.le_refl _
  | cons operand rest ih =>
    rw [mergeFrom, Cond.leavesAll_cons]
    cases hoperand : j.mergeable? operand with
    | none =>
      dsimp only
      rw [Cond.leavesAll_cons]
      exact Nat.add_le_add_left ih _
    | some found =>
      obtain ⟨key, values⟩ := found
      have hleaf := leaves_of_mergeable? hoperand
      have hmerged := j.leaves_merged_le (κ := κ) key (valuesOn key)
      dsimp only
      split
      · exact Nat.le_trans ih (Nat.le_add_left ..)
      · rw [Cond.leavesAll_cons, hleaf]
        exact Nat.add_le_add hmerged ih

private theorem leavesAll_mergeFrom_lt {j : Junction} {valuesOn : RecordKey → List Value}
    {seen : List RecordKey} {operands : List (Cond κ)}
    (h : ¬((j.mergeableKeys operands).Nodup ∧ ∀ key ∈ j.mergeableKeys operands, key ∉ seen)) :
    Cond.leavesAll (j.mergeFrom valuesOn seen operands) < Cond.leavesAll operands := by
  induction operands generalizing seen with
  | nil => exact absurd ⟨List.nodup_nil, List.forall_mem_nil _⟩ h
  | cons operand rest ih =>
    rw [mergeFrom, Cond.leavesAll_cons]
    cases hoperand : j.mergeable? operand with
    | none =>
      rw [mergeableKeys_cons_of_eq_none hoperand] at h
      dsimp only
      rw [Cond.leavesAll_cons]
      exact Nat.add_lt_add_left (ih h) _
    | some found =>
      obtain ⟨key, values⟩ := found
      have hleaf := leaves_of_mergeable? hoperand
      have hmerged := j.leaves_merged_le (κ := κ) key (valuesOn key)
      rw [mergeableKeys_cons_of_eq_some hoperand] at h
      dsimp only
      split
      · -- The operand itself is dropped, and it has a leaf.
        have hrest : Cond.leavesAll (j.mergeFrom valuesOn seen rest) ≤ Cond.leavesAll rest :=
          leavesAll_mergeFrom_le
        omega
      · next hnew =>
        have hrest := @ih (key :: seen) ?_
        · rw [Cond.leavesAll_cons, hleaf]
          exact Nat.add_lt_add_of_le_of_lt hmerged hrest
        · rintro ⟨hnodup, hfresh⟩
          apply h
          rw [List.nodup_cons, List.forall_mem_cons]
          refine ⟨⟨fun hk ↦ hfresh key hk List.mem_cons_self, hnodup⟩, hnew, ?_⟩
          exact fun k hk hseen ↦ hfresh k hk (List.mem_cons_of_mem key hseen)

private theorem flatMap_parts_sublist {j : Junction} {operands : List (Cond κ)}
    (h : ∀ operand ∈ operands, ∀ inner, operand ≠ .compound j inner) :
    (operands.flatMap j.parts).Sublist operands := by
  induction operands with
  | nil => exact .slnil
  | cons operand rest ih =>
    rw [List.forall_mem_cons] at h
    rw [List.flatMap_cons]
    rcases j.parts_cases operand with ⟨-, heq⟩ | ⟨inner, heq, -⟩ | heq
    · rw [heq]
      exact (ih h.2).cons operand
    · exact absurd heq (h.1 inner)
    · rw [heq]
      exact (ih h.2).cons_cons operand

end Junction

/-! ## Merged conditions -/

namespace Cond

/-- A node that, if it is a junction, has no two operands of one key to merge. -/
def Settled (node : Cond κ) : Prop :=
  ∀ j operands, node = compound j operands → (j.mergeableKeys operands).Nodup

/-- A settled condition is left as it is when its operands are merged. -/
theorem Settled.mergeOperands_eq {c : Cond κ} (h : c.Settled) : c.mergeOperands = c := by
  cases c with
  | compound j operands => rw [mergeOperands, if_pos (h j operands rfl)]
  | fixed truth => rfl
  | test key t => rfl
  | custom leaf => rfl
  | negation operand => rfl

private theorem settled_not {c : Cond κ} (h : c.Everywhere Settled) : c.not.Settled := by
  cases c with
  | negation operand => exact (everywhere_negation.mp h).2.self
  | fixed truth => exact fun _ _ ↦ nofun
  | test key t => exact fun _ _ ↦ nofun
  | custom leaf => exact fun _ _ ↦ nofun
  | compound j operands => exact fun _ _ ↦ nofun

private theorem everywhere_settled_merged (j : Junction) (key : RecordKey) (values : List Value) :
    (j.merged key values : Cond κ).Everywhere Settled := by
  have htest : (memberOf key values : Cond κ).Everywhere Settled := by
    rw [everywhere_memberOf]
    exact fun i operands heq ↦ absurd heq (Junction.or.merged_ne_compound i key values operands)
  cases j with
  | or => exact htest
  | and => exact .not (settled_not htest) htest

private theorem everywhere_settled_make {j : Junction} {operands : List (Cond κ)}
    (hnormal : j.NormalOperands operands)
    (h : ∀ operand ∈ operands, operand.Everywhere Settled) :
    (j.make (j.mergeOperands operands)).Everywhere Settled := by
  have hnested : ∀ operand ∈ j.mergeOperands operands, ∀ inner, operand ≠ compound j inner := by
    intro operand hmem
    obtain ⟨hkept, -⟩ | ⟨-, -, key, -, -, -, rfl⟩ := Junction.mem_mergeFrom_iff.mp hmem
    · exact hnormal.notNested operand hkept
    · exact j.merged_ne_compound j key _
  have hall : ∀ operand ∈ j.mergeOperands operands, operand.Everywhere Settled := by
    intro operand hmem
    obtain ⟨hkept, -⟩ | ⟨-, -, key, -, -, -, rfl⟩ := Junction.mem_mergeFrom_iff.mp hmem
    · exact h operand hkept
    · exact everywhere_settled_merged j key _
  refine .make (j.make_cases _ ?_ ?_ ?_ ?_) hall
  · exact fun _ _ _ ↦ nofun
  · intro c hsingle
    exact (Everywhere.of_mem_flatten hall (hsingle ▸ List.mem_singleton_self c)).self
  · exact fun _ _ _ ↦ nofun
  · rintro - - _ _ ⟨⟩
    have hsublist := (OrderedSet.toList_ofList_sublist _).trans
      (Junction.flatMap_parts_sublist hnested)
    exact Junction.nodup_mergeableKeys_mergeFrom.1.sublist (hsublist.filterMap _)

/-- Merging settles every junction of a condition that can be built. -/
theorem everywhere_settled_merge {c : Cond κ} (h : c.Reachable) : c.merge.Everywhere Settled := by
  induction c with
  | fixed truth => exact everywhere_fixed.mpr fun _ _ ↦ nofun
  | test key t => exact everywhere_test.mpr fun _ _ ↦ nofun
  | custom leaf => exact everywhere_custom.mpr fun _ _ ↦ nofun
  | negation operand ih =>
    have hoperand := ih (Reachable.invariant.negated h)
    exact .not (settled_not hoperand) hoperand
  | compound j operands ih =>
    have hreachable := Reachable.invariant.operand h
    have hall : ∀ operand ∈ operands.map merge, operand.Everywhere Settled := by
      rw [List.forall_mem_map]
      exact fun operand hmem ↦ ih operand hmem (hreachable operand hmem)
    have hbuilt : (j.make (operands.map merge)).IsNormal := by
      apply isNormal_make
      rw [List.forall_mem_map]
      intro operand hmem
      exact (Reachable.invariant.merge (hreachable operand hmem)).everywhere_isNormal
    rw [merge, mergeAll_eq_map]
    -- Of what is built only a junction of the operands may have something to merge.
    revert hbuilt
    refine j.make_cases _ ?_ ?_ ?_ ?_
    · exact fun _ _ ↦ everywhere_fixed.mpr fun _ _ ↦ nofun
    · intro d hsingle _
      have hd := Everywhere.of_mem_flatten hall (hsingle ▸ List.mem_singleton_self d)
      rwa [hd.self.mergeOperands_eq]
    · exact fun _ _ ↦ everywhere_fixed.mpr fun _ _ ↦ nofun
    · intro _ _ hbuilt
      have hdifferent : ∀ d ∈ (j.flatten (operands.map merge)).toList, d.Everywhere Settled :=
        fun d hd ↦ .of_mem_flatten hall hd
      rw [mergeOperands]
      split
      · next hnodup =>
        refine everywhere_compound.mpr ⟨?_, hdifferent⟩
        rintro _ _ ⟨⟩
        exact hnodup
      · exact everywhere_settled_make hbuilt hdifferent

/-- A condition in normal form that is settled everywhere is left as it is. -/
theorem merge_eq_self {c : Cond κ} (hnormal : c.Everywhere IsNormal)
    (hsettled : c.Everywhere Settled) : c.merge = c := by
  induction c with
  | fixed truth => rfl
  | test key t => rfl
  | custom leaf => rfl
  | negation operand ih =>
    have hoperand := ih (everywhere_negation.mp hnormal).2 (everywhere_negation.mp hsettled).2
    rw [merge, hoperand, IsNormal.not_eq hnormal.self]
  | compound j operands ih =>
    have hoperands : operands.map merge = operands.map id := by
      apply List.map_congr_left
      intro operand hmem
      exact ih operand hmem ((everywhere_compound.mp hnormal).2 operand hmem)
        ((everywhere_compound.mp hsettled).2 operand hmem)
    rw [merge, mergeAll_eq_map, hoperands, List.map_id, IsNormal.make_eq hnormal.self,
      hsettled.self.mergeOperands_eq]

/-- Merging the operands of a condition saves a leaf, if two of them can be merged. -/
theorem shrinksTo_mergeOperands (c : Cond κ) : c.ShrinksTo c.mergeOperands := by
  intro h
  refine ⟨Reachable.invariant.mergeOperands h, ?_⟩
  cases c with
  | compound j operands =>
    rw [mergeOperands]
    split
    · exact .inl rfl
    · next hrepeated =>
      right
      rw [leaves_compound]
      apply Nat.lt_of_le_of_lt (j.leaves_make_le _)
      exact Junction.leavesAll_mergeFrom_lt fun hnodup ↦ hrepeated hnodup.1
  | fixed truth => exact .inl rfl
  | test key t => exact .inl rfl
  | custom leaf => exact .inl rfl
  | negation operand => exact .inl rfl

/-! ## Tests of one key -/

/-- Whether the condition is a test of equality or membership of the field under the key. -/
def testsMembership (key : RecordKey) : Cond κ → Bool
  | test k (.equal _) | test k (.oneOf _) => k == key
  | _ => false

private theorem testsMembership_eq (key : RecordKey) (c : Cond κ) :
    c.testsMembership key = ((c.membership?.map Prod.fst).map (· == key)).getD false := by
  cases c with
  | test k t => cases t <;> rfl
  | fixed truth => rfl
  | custom leaf => rfl
  | negation operand => rfl
  | compound j operands => rfl

private theorem countP_testsMembership (key : RecordKey) (operands : List (Cond κ)) :
    operands.countP (testsMembership key) = (Junction.or.mergeableKeys operands).count key := by
  rw [Junction.mergeableKeys, List.count_eq_countP, List.countP_filterMap]
  congr 1
  funext c
  exact testsMembership_eq key c

private theorem mergeableKeys_and (operands : List (Cond κ)) :
    Junction.and.mergeableKeys operands =
      Junction.or.mergeableKeys (operands.filterMap negated?) := by
  rw [Junction.mergeableKeys, Junction.mergeableKeys, List.filterMap_filterMap]
  congr 1
  funext c
  exact Option.map_bind

/-- Merging succeeds. In what it makes, a disjunction has at most one test of equality or membership
for each key among its operands, and a conjunction at most one negation of such a test. Merging
again gives the same. If anything was merged, there are fewer leaves. -/
theorem merge_reaches_fixpoint {c : Cond κ} (h : c.Reachable) :
    ∃ d, Pass.merging.run c = .ok (some d) ∧
      (∀ operands, .compound .or operands ∈ d.nodes → ∀ key,
        operands.countP (testsMembership key) ≤ 1) ∧
      (∀ operands, .compound .and operands ∈ d.nodes → ∀ key,
        (operands.filterMap negated?).countP (testsMembership key) ≤ 1) ∧
      Pass.merging.run d = .ok (some d) ∧ (d = c ∨ d.leaves < c.leaves) := by
  have hsettled := everywhere_settled_merge h
  have hnormal := (Reachable.invariant.merge h).everywhere_isNormal
  refine ⟨c.merge, rfl, ?_, ?_, ?_, ?_⟩
  · intro operands hnode key
    rw [countP_testsMembership]
    exact List.nodup_iff_count_le_one.mp (hsettled _ hnode _ _ rfl) key
  · intro operands hnode key
    rw [countP_testsMembership, ← mergeableKeys_and]
    exact List.nodup_iff_count_le_one.mp (hsettled _ hnode _ _ rfl) key
  · rw [Pass.run, merge_eq_self hnormal hsettled]
  · exact (shrinksTo_rewriting.merge shrinksTo_mergeOperands c h).2

/-- The operand of a disjunction that becomes a disjunction itself once its own operands are merged
takes part in the merging with a test of the same key beside it. -/
theorem merge_reaches_fixpoint_flattened : ∃ c : Cond Tagged,
    c = .or [.test ⟨"a", rfl⟩ (.equal (.string "z")),
      .and [.or [.test ⟨"a", rfl⟩ (.equal (.string "x")), .test ⟨"a", rfl⟩ (.equal (.string "y")),
          .custom ⟨"t"⟩],
        .or [.memberOf ⟨"a", rfl⟩ [.string "x", .string "y"], .custom ⟨"t"⟩]]] ∧
      ∃ d, Pass.merging.run c = .ok (some d) ∧
        (∀ operands, .compound .or operands ∈ d.nodes → ∀ key,
          operands.countP (testsMembership key) ≤ 1) ∧
        (∀ operands, .compound .and operands ∈ d.nodes → ∀ key,
          (operands.filterMap negated?).countP (testsMembership key) ≤ 1) ∧
        Pass.merging.run d = .ok (some d) ∧ (d = c ∨ d.leaves < c.leaves) := by
  refine ⟨_, rfl, merge_reaches_fixpoint ?_⟩
  have hequal (text : String) :
      (.test ⟨"a", rfl⟩ (.equal (.string text)) : Cond Tagged).Reachable := .test _ nofun
  refine .make_pair .or (hequal _) (.make_pair .and (.make .or ?_)
    (.make_pair .or (.memberOf _ _) (.custom _)))
  simp only [List.forall_mem_cons]
  exact ⟨hequal _, hequal _, .custom _, List.forall_mem_nil _⟩

end Cond

end Criteria
