import Criteria.Predicate
import Criteria.Proofs.Polarity

/-!
# Compiling

A custom condition has no predicate. Compiling goes through all of a condition, so that it meets the
custom conditions also where an evaluation would stop before them. Main statement: exactly the
conditions without custom parts are compiled, and otherwise the failure names the first custom
condition. The passes bring in no custom condition, so that they make nothing that cannot be
compiled of what can.
-/

namespace Criteria

variable {κ : Type} [CustomCondition κ]

namespace Cond

/-! ## Compiling -/

/-- The failure to compile a condition is about the first custom condition in it. -/
theorem failure?_compile (c : Cond κ) :
    failure? (Predicate.compile c) = c.customs.head?.map fun custom ↦
      .noHandler Predicate.compilerName (CustomCondition.label custom.2) := by
  induction c with
  | fixed truth => rfl
  | test key t => rfl
  | custom leaf => rfl
  | negation operand ih =>
    rw [Predicate.compile, failure?_map, ih, customs, List.head?_map, Option.map_map]
    rfl
  | compound j operands ih =>
    calc failure? (Predicate.compile (compound j operands))
        = operands.findSome? fun operand ↦ failure? (Predicate.compile operand) := by
          rw [Predicate.compile, failure?_map, Predicate.compileAll_eq_mapM, failure?_mapM]
      _ = operands.findSome? fun operand ↦ operand.customs.head?.map fun custom ↦
            .noHandler Predicate.compilerName (CustomCondition.label custom.2) :=
          findSome?_congr ih
      _ = _ := by
          rw [customs, customsAll_eq_flatMap, List.head?_flatMap, List.map_findSome?]
          rfl

private theorem customFree_iff {c : Cond κ} : c.CustomFree ↔ c.customs = [] := by
  rw [CustomFree]
  induction c with
  | fixed truth =>
    refine iff_of_true (everywhere_fixed.mpr ?_) rfl
    rintro _ ⟨⟩
  | test key t =>
    refine iff_of_true (everywhere_test.mpr ?_) rfl
    rintro _ ⟨⟩
  | custom leaf => exact iff_of_false (fun h ↦ h.self leaf rfl) (List.cons_ne_nil _ _)
  | negation operand ih =>
    rw [everywhere_negation, ih, customs, List.map_eq_nil_iff, and_iff_right]
    rintro _ ⟨⟩
  | compound j operands ih =>
    rw [everywhere_compound, customs, customsAll_eq_flatMap, List.flatMap_eq_nil_iff, and_iff_right]
    · exact forall₂_congr ih
    · rintro _ ⟨⟩

/-- Exactly the conditions without custom parts are compiled. -/
theorem exists_compile_eq_ok_iff {c : Cond κ} :
    (∃ p, Predicate.compile c = .ok p) ↔ c.CustomFree := by
  rw [customFree_iff, exists_eq_ok_iff]
  simp only [ne_eq, ← failure?_eq_some_iff, failure?_compile, ← Option.eq_none_iff_forall_ne_some,
    Option.map_eq_none_iff, List.head?_eq_none_iff]

/-! ## Passes -/

/-- The custom conditions in a condition are all among those of a list. -/
def CustomsAmong (leaves : List κ) (c : Cond κ) : Prop :=
  ∀ depth leaf, (depth, leaf) ∈ c.customs → leaf ∈ leaves

/-- Neither building nor taking apart brings in a custom condition. -/
theorem CustomsAmong.invariant (leaves : List κ) : Invariant (CustomsAmong leaves) where
  fixed _ _ _ := nofun
  not h _ _ hmem := by
    obtain ⟨other, hother, -⟩ := exists_mem_customs_of_not hmem
    exact h other _ hother
  make _ _ h depth leaf hmem := by
    obtain ⟨operand, hoperand, hmem⟩ := exists_mem_customs_of_make hmem
    exact h operand hoperand depth leaf hmem
  memberOf _ _ members := memberOf_cases _ members (fun _ _ _ ↦ nofun) (fun _ _ _ _ ↦ nofun)
    fun _ _ _ ↦ nofun
  negated h depth leaf hmem :=
    h (depth + 1) leaf (mem_customs_negation_iff.mpr ⟨depth, hmem, rfl⟩)
  operand h operand hoperand depth leaf hmem :=
    h depth leaf (mem_customs_compound_iff.mpr ⟨operand, hoperand, hmem⟩)

/-- The custom conditions in what a pass makes are in the condition that it makes it of. -/
theorem exists_mem_customs_of_run {pass : Pass} {c d : Cond κ} (hd : pass.run c = .ok (some d))
    {depth : Nat} {leaf : κ} (h : (depth, leaf) ∈ d.customs) :
    ∃ other, (other, leaf) ∈ c.customs := by
  have hamong : c.CustomsAmong (c.customs.map Prod.snd) :=
    fun _ _ hmem ↦ List.mem_map_of_mem hmem
  have hleaf := (CustomsAmong.invariant _).run hamong hd depth leaf h
  obtain ⟨⟨other, _⟩, hmem, rfl⟩ := List.mem_map.mp hleaf
  exact ⟨other, hmem⟩

/-- A condition is compiled exactly if it has no custom parts, and otherwise the failure names the
first custom condition in it. Every custom condition in what a pass makes of it is one of its own,
so that what is made of a condition that is compiled is compiled. -/
theorem compile_outcome (c : Cond κ) :
    ((∃ p, Predicate.compile c = .ok p) ↔ c.CustomFree) ∧
    (∀ e, Predicate.compile c = .error e ↔ ∃ depth leaf rest,
      c.customs = (depth, leaf) :: rest ∧
        e = .noHandler Predicate.compilerName (CustomCondition.label leaf)) ∧
    ∀ (pass : Pass) d, pass.run c = .ok (some d) →
      (∀ depth leaf, (depth, leaf) ∈ d.customs → ∃ other, (other, leaf) ∈ c.customs) ∧
        ((∃ p, Predicate.compile c = .ok p) → ∃ p, Predicate.compile d = .ok p) := by
  refine ⟨exists_compile_eq_ok_iff, fun e ↦ ?_, fun pass d hd ↦ ⟨?_, ?_⟩⟩
  · rw [← failure?_eq_some_iff, failure?_compile, Option.map_eq_some_iff]
    simp only [List.head?_eq_some_iff, Prod.exists]
    grind
  · exact fun depth leaf hmem ↦ exists_mem_customs_of_run hd hmem
  · rw [exists_compile_eq_ok_iff, exists_compile_eq_ok_iff]
    exact fun hfree ↦ CustomFree.invariant.run hfree hd

/-- Custom conditions of two kinds stand in the branches of a disjunction, the first one negated and
after a test that an evaluation may stop at. Compiling names the first one, and pulling out the
shared test leaves these custom conditions only. Two equalities that are merged can still be
compiled. -/
theorem compile_outcome_shared : ∃ c d e merged : Cond Marked,
    c = .or [.and [.test ⟨"a", rfl⟩ .isTrue, .not (.custom ⟨.loose, "t"⟩)],
      .and [.custom ⟨.bare, "u"⟩, .test ⟨"a", rfl⟩ .isTrue]] ∧
    e = .or [.test ⟨"a", rfl⟩ (.equal (.string "x")), .test ⟨"a", rfl⟩ (.equal (.string "y"))] ∧
    Predicate.compile c = .error (.noHandler Predicate.compilerName "LooseCond") ∧
    Pass.factoring.run c = .ok (some d) ∧
    (∀ depth leaf, (depth, leaf) ∈ d.customs → ∃ other, (other, leaf) ∈ c.customs) ∧
    Pass.merging.run e = .ok (some merged) ∧ ∃ p, Predicate.compile merged = .ok p := by
  have hfails {c : Cond Marked} {label : String}
      (h : (c.customs.head?.map fun custom ↦ CustomCondition.label custom.2) = some label) :
      Predicate.compile c = .error (.noHandler Predicate.compilerName label) := by
    obtain ⟨⟨depth, leaf⟩, hfirst, rfl⟩ := Option.map_eq_some_iff.mp h
    obtain ⟨rest, hcustoms⟩ := List.head?_eq_some_iff.mp hfirst
    exact ((compile_outcome c).2.1 _).mpr ⟨depth, leaf, rest, hcustoms, rfl⟩
  have hmerged {e : Cond Marked} (h : e.customs.isEmpty = true) :
      ∃ p, Predicate.compile e.merge = .ok p := by
    have hfree := customFree_iff.mpr (List.isEmpty_iff.mp h)
    exact ((compile_outcome e).2.2 .merging _ rfl).2 ((compile_outcome e).1.mpr hfree)
  refine ⟨_, _, _, _, rfl, rfl, hfails ?_, rfl, ((compile_outcome _).2.2 .factoring _ rfl).1, rfl,
    hmerged ?_⟩
  · decide +kernel
  · decide +kernel

end Cond

end Criteria
