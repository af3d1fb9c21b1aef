import Criteria.Pass
import Criteria.Proofs.Node
import Criteria.Proofs.Traversal

/-!
# Rewriting

Every pass rewrites the parts of a condition, builds the condition anew from them, and makes a step
of its own in between: it pulls out a branch, merges the operands of a junction, or pushes a
negation over a junction. What holds between a condition and what rewriting its parts makes of it
is therefore settled for a whole pass by looking at its step. The same goes for properties of
single conditions that survive taking conditions apart and building from the parts.
-/

namespace Criteria.Cond

variable {κ : Type} [CustomCondition κ]

/-! ## Relations that rewriting keeps -/

/-- A relation that holds between a condition and what it becomes when its parts are replaced by
related ones, however often that is done. -/
structure Rewriting (R : Cond κ → Cond κ → Prop) : Prop where
  refl : ∀ c, R c c
  trans : ∀ {a b c}, R a b → R b c → R a c
  negation : ∀ {operand other}, R operand other → R (.negation operand) other.not
  compound : ∀ (j : Junction) {operands others}, List.Forall₂ R operands others →
    R (.compound j operands) (j.make others)

namespace Rewriting

variable {R : Cond κ → Cond κ → Prop}

/-- What holds when a shared branch is pulled out holds for factoring. -/
theorem factor (h : Rewriting R) (hstep : ∀ {c d}, pullOutShared? c = some d → R c d)
    (c : Cond κ) : R c c.factor := by
  induction c using factor_induction with
  | fixed truth => rw [factor_fixed]; exact h.refl _
  | test key t => rw [factor_test]; exact h.refl _
  | custom leaf => rw [factor_custom]; exact h.refl _
  | negation operand ih => rw [factor_negation]; exact h.negation ih
  | compound j operands ih ihshorter =>
    have hrebuilt : R (.compound j operands) (j.make (operands.map Cond.factor)) := by
      apply h.compound
      rw [List.forall₂_map_right_iff, List.forall₂_same]
      exact ih
    rw [factor_compound]
    split
    · exact hrebuilt
    · next shorter hshorter =>
      exact h.trans hrebuilt (h.trans (hstep hshorter) (ihshorter shorter hshorter))

/-- What holds when the operands of a junction are merged holds for merging. -/
theorem merge (h : Rewriting R) (hstep : ∀ c, R c (mergeOperands c)) (c : Cond κ) :
    R c c.merge := by
  induction c with
  | fixed truth => exact h.refl _
  | test key t => exact h.refl _
  | custom leaf => exact h.refl _
  | negation operand ih => exact h.negation ih
  | compound j operands ih =>
    have hrebuilt : R (.compound j operands) (j.make (mergeAll operands)) := by
      apply h.compound
      rw [mergeAll_eq_map, List.forall₂_map_right_iff, List.forall₂_same]
      exact ih
    exact h.trans hrebuilt (hstep _)

/-- What holds when a negation is pushed over a junction holds for the whole pass. -/
theorem pushNegations (h : Rewriting R)
    (hstep : ∀ j operands, R (.negation (.compound j operands))
      (j.dual.make (operands.map Cond.not)))
    {c d : Cond κ} (hd : c.pushNegations = .ok d) : R c d := by
  induction c using pushNegations_induction generalizing d with
  | fixed truth => rw [Cond.pushNegations] at hd; cases hd; exact h.refl _
  | test key t => rw [Cond.pushNegations] at hd; cases hd; exact h.refl _
  | custom leaf => rw [Cond.pushNegations] at hd; cases hd; exact h.refl _
  | negatedTest key t => rw [Cond.pushNegations] at hd; cases hd; exact h.refl _
  | compound j operands ih =>
    rw [Cond.pushNegations, pushNegationsAll_eq_mapM] at hd
    cases hall : operands.mapM Cond.pushNegations with
    | error e => rw [hall] at hd; cases hd
    | ok others =>
      rw [hall] at hd
      cases hd
      apply h.compound
      have hboth := (List.forall₂_and_left _ _).mpr
        ⟨fun c hc d ↦ ih c hc (d := d), mapM_eq_ok_iff.mp hall⟩
      exact hboth.imp fun c d hcd ↦ hcd.1 d hcd.2
  | negatedCompound j operands ih =>
    rw [Cond.pushNegations] at hd
    exact h.trans (hstep j operands) (ih hd)
  | negatedOther operand htest hcompound =>
    rw [pushNegations_negation_other htest hcompound] at hd
    cases hd

/-- What holds for the steps of the passes holds for each pass. -/
theorem run (h : Rewriting R) (hfactoring : ∀ {c d}, pullOutShared? c = some d → R c d)
    (hmerging : ∀ c, R c (mergeOperands c))
    (hnegation : ∀ j operands, R (.negation (.compound j operands))
      (j.dual.make (operands.map Cond.not)))
    {pass : Pass} {c d : Cond κ} (hd : pass.run c = .ok (some d)) : R c d := by
  cases pass with
  | factoring =>
    cases hd
    exact h.factor hfactoring c
  | merging =>
    cases hd
    exact h.merge hmerging c
  | negation =>
    rw [Pass.run] at hd
    cases hpushed : c.pushNegations with
    | error e => rw [hpushed] at hd; cases hd
    | ok pushed =>
      rw [hpushed] at hd
      cases hd
      exact h.pushNegations hnegation hpushed

/-- What holds for each pass holds for all sequences of passes. -/
theorem runAll (h : Rewriting R)
    (hrun : ∀ {pass : Pass} {c d : Cond κ}, pass.run c = .ok (some d) → R c d)
    {passes : List Pass} {c d : Cond κ} (hd : Pass.runAll passes c = .ok (some d)) : R c d := by
  induction passes generalizing c with
  | nil =>
    cases hd
    exact h.refl _
  | cons pass passes ih =>
    obtain ⟨e, he, hd⟩ := Pass.runAll_cons_eq_ok_iff.mp hd
    exact h.trans (hrun he) (ih hd)

end Rewriting

/-! ## Properties that junctions keep -/

/-- A property of conditions that is kept when compounds are taken apart and when conditions are
joined. -/
structure JunctionInvariant (P : Cond κ → Prop) : Prop where
  make : ∀ (j : Junction) {operands}, (∀ c ∈ operands, P c) → P (j.make operands)
  operand : ∀ {j operands}, P (.compound j operands) → ∀ c ∈ operands, P c

namespace JunctionInvariant

variable {P : Cond κ → Prop}

/-- The property is handed on from a compound to the junction of its rewritten operands. -/
theorem rebuild (h : JunctionInvariant P) {j : Junction} {operands others : List (Cond κ)}
    (hall : List.Forall₂ (fun c d ↦ P c → P d) operands others)
    (hc : P (.compound j operands)) : P (j.make others) := by
  apply h.make
  have hoperands := h.operand hc
  clear hc
  induction hall with
  | nil => exact nofun
  | cons hfirst _ ih =>
    rw [List.forall_mem_cons] at hoperands ⊢
    exact ⟨hfirst hoperands.1, ih hoperands.2⟩

private theorem branches (h : JunctionInvariant P) {j : Junction} {c : Cond κ} (hc : P c) :
    ∀ branch ∈ j.branches c, P branch := by
  rcases j.branches_cases c with ⟨operands, rfl, heq⟩ | heq
  · rw [heq]
    exact h.operand hc
  · rw [heq, List.forall_mem_singleton]
    exact hc

/-- Pulling out a shared branch keeps the property. -/
theorem pullOutShared? (h : JunctionInvariant P) {c d : Cond κ} (hc : P c)
    (hd : c.pullOutShared? = some d) : P d := by
  cases c with
  | compound j operands =>
    obtain ⟨common, hshared, rfl⟩ := Option.map_eq_some_iff.mp hd
    have hoperands := h.operand hc
    have hcommon : P common := by
      obtain ⟨operand, hmem, hbranch⟩ := List.mem_flatMap.mp (Junction.mem_of_mostShared? hshared)
      exact h.branches (hoperands operand hmem) common hbranch
    have hremainder : ∀ rest ∈ (j.sharing common operands).map (j.remainder common), P rest := by
      intro rest hrest
      obtain ⟨operand, hmem, rfl⟩ := List.mem_map.mp hrest
      apply h.make
      intro branch hbranch
      have hoperand := hoperands operand (List.mem_filter.mp hmem).1
      exact h.branches hoperand branch (List.mem_filter.mp hbranch).1
    have hfactored : P (j.factored common operands) := by
      apply h.make
      simpa using ⟨hcommon, h.make j hremainder⟩
    apply h.make
    intro operand hmem
    rcases List.mem_cons.mp ((j.pullOut_perm common operands).mem_iff.mp hmem) with rfl | hkept
    · exact hfactored
    · exact hoperands operand (List.mem_filter.mp hkept).1
  | fixed truth => cases hd
  | test key t => cases hd
  | custom leaf => cases hd
  | negation operand => cases hd

/-- Merging the operands of a junction keeps the property, if the merged tests have it. -/
theorem mergeOperands (h : JunctionInvariant P)
    (hmerged : ∀ {j : Junction} {c : Cond κ} {key values}, P c →
      j.mergeable? c = some (key, values) → ∀ members, P (j.merged key members))
    {c : Cond κ} (hc : P c) : P c.mergeOperands := by
  cases c with
  | compound j operands =>
    rw [Cond.mergeOperands]
    split
    · exact hc
    · apply h.make
      intro operand hmem
      obtain ⟨hkept, -⟩ | ⟨first, hfirst, key, values, hkey, -, rfl⟩ :=
        Junction.mem_mergeFrom_iff.mp hmem
      · exact h.operand hc operand hkept
      · exact hmerged (h.operand hc first hfirst) hkey _
  | fixed truth => exact hc
  | test key t => exact hc
  | custom leaf => exact hc
  | negation operand => exact hc

end JunctionInvariant

/-! ## Properties that rewriting keeps -/

/-- A property of conditions that is kept when they are taken apart and when conditions are built,
also when the values of a test of equality or membership are replaced. -/
structure Invariant (P : Cond κ → Prop) : Prop where
  fixed : ∀ truth, P (.fixed truth)
  not : ∀ {c}, P c → P c.not
  make : ∀ (j : Junction) {operands}, (∀ c ∈ operands, P c) → P (j.make operands)
  memberOf : ∀ {c key values}, c.membership? = some (key, values) → P c →
    ∀ members, P (.memberOf key members)
  negated : ∀ {operand}, P (.negation operand) → P operand
  operand : ∀ {j operands}, P (.compound j operands) → ∀ c ∈ operands, P c

namespace Invariant

variable {P : Cond κ → Prop}

/-- To hold at every node is an invariant if it takes no more than to be a constant or a junction,
or the negation of something that is neither a constant nor a negation. -/
theorem everywhere (hfixed : ∀ truth, P (.fixed truth))
    (hnegation : ∀ operand, (∀ truth, operand ≠ .fixed truth) →
      (∀ inner, operand ≠ .negation inner) → P (.negation operand))
    (hcompound : ∀ j operands, P (.compound j operands))
    (hmember : ∀ {c key values}, c.membership? = some (key, values) → P c →
      ∀ members, P (.memberOf key members)) : Invariant (Everywhere P) where
  fixed truth := everywhere_fixed.mpr (hfixed truth)
  not := .negate hfixed hnegation
  make := .join hfixed hcompound
  memberOf hmembership h members :=
    everywhere_memberOf.mpr (hmember hmembership h.self members)
  negated h := (everywhere_negation.mp h).2
  operand h := (everywhere_compound.mp h).2

/-- An invariant is kept when compounds are taken apart and when conditions are joined. -/
theorem junctionInvariant (h : Invariant P) : JunctionInvariant P := ⟨h.make, h.operand⟩

/-- An invariant is handed on from a condition to the one rebuilt from its rewritten parts. -/
theorem rewriting (h : Invariant P) : Rewriting fun c d ↦ P c → P d where
  refl _ := id
  trans hab hbc ha := hbc (hab ha)
  negation hoperand hc := h.not (hoperand (h.negated hc))
  compound _ _ _ := h.junctionInvariant.rebuild

/-- Pulling out a shared branch keeps an invariant. -/
theorem pullOutShared? (h : Invariant P) {c d : Cond κ} (hc : P c)
    (hd : c.pullOutShared? = some d) : P d := h.junctionInvariant.pullOutShared? hc hd

private theorem merged (h : Invariant P) {j : Junction} {c : Cond κ} {key : RecordKey}
    {values : List Value} (hc : P c) (hmergeable : j.mergeable? c = some (key, values))
    (members : List Value) : P (j.merged key members) := by
  cases j with
  | or => exact h.memberOf hmergeable hc members
  | and =>
    obtain ⟨inner, rfl, hmembership⟩ := Junction.exists_negation_of_mergeable?_and hmergeable
    exact h.not (h.memberOf hmembership (h.negated hc) members)

/-- Merging the operands of a junction keeps an invariant. -/
theorem mergeOperands (h : Invariant P) {c : Cond κ} (hc : P c) : P c.mergeOperands :=
  h.junctionInvariant.mergeOperands h.merged hc

/-- Pushing a negation over a junction keeps an invariant. -/
theorem negated_junction (h : Invariant P) {j : Junction} {operands : List (Cond κ)}
    (hc : P (.negation (.compound j operands))) : P (j.dual.make (operands.map Cond.not)) := by
  apply h.make
  intro c hmem
  obtain ⟨operand, hoperand, rfl⟩ := List.mem_map.mp hmem
  exact h.not (h.operand (h.negated hc) operand hoperand)

/-- Factoring keeps an invariant. -/
theorem factor (h : Invariant P) {c : Cond κ} (hc : P c) : P c.factor :=
  h.rewriting.factor (fun hstep hfrom ↦ h.pullOutShared? hfrom hstep) c hc

/-- Merging keeps an invariant. -/
theorem merge (h : Invariant P) {c : Cond κ} (hc : P c) : P c.merge :=
  h.rewriting.merge (fun _ ↦ h.mergeOperands) c hc

/-- Pushing negations down keeps an invariant. -/
theorem pushNegations (h : Invariant P) {c d : Cond κ} (hc : P c)
    (hd : c.pushNegations = .ok d) : P d :=
  h.rewriting.pushNegations (fun _ _ ↦ h.negated_junction) hd hc

/-- Every pass keeps an invariant. -/
theorem run (h : Invariant P) {pass : Pass} {c d : Cond κ} (hc : P c)
    (hd : pass.run c = .ok (some d)) : P d :=
  h.rewriting.run (fun hstep hfrom ↦ h.pullOutShared? hfrom hstep) (fun _ ↦ h.mergeOperands)
    (fun _ _ ↦ h.negated_junction) hd hc

/-- Every sequence of passes keeps an invariant. -/
theorem runAll (h : Invariant P) {passes : List Pass} {c d : Cond κ} (hc : P c)
    (hd : Pass.runAll passes c = .ok (some d)) : P d :=
  h.rewriting.runAll (fun hrun hfrom ↦ h.run hfrom hrun) hd hc

end Invariant

end Criteria.Cond
