import Criteria.Cond

/-!
# Equality of conditions

Two conditions are equal if they have one shape and equal arguments, where the order of the
operands of a compound does not matter: each operand of the one has to find a partner among the
operands of the other, and none may be left over.
-/

namespace Criteria

/-- Removes the first element with the property, if there is one. -/
def removeFirst? {α : Type} (p : α → Bool) : List α → Option (List α)
  | [] => none
  | a :: as => if p a then some as else (removeFirst? p as).map (a :: ·)

/-- What is removed is the first element with the property. -/
theorem removeFirst?_eq_some_iff {α : Type} {p : α → Bool} {as rest : List α} :
    removeFirst? p as = some rest ↔ ∃ before a after, as = before ++ a :: after ∧
      rest = before ++ after ∧ p a = true ∧ ∀ b ∈ before, p b = false := by
  induction as generalizing rest with
  | nil => simp [removeFirst?]
  | cons a as ih =>
    rw [removeFirst?]
    by_cases ha : p a = true
    · rw [if_pos ha]
      constructor
      · rintro ⟨⟩
        exact ⟨[], a, as, rfl, rfl, ha, nofun⟩
      · rintro ⟨before, b, after, heq, hrest, -, hbefore⟩
        cases before with
        | nil => cases heq; rw [hrest]; rfl
        | cons c before =>
          cases heq
          simp [ha] at hbefore
    · rw [if_neg ha, Option.map_eq_some_iff]
      constructor
      · rintro ⟨rest', hsome, rfl⟩
        obtain ⟨before, b, after, rfl, rfl, hb, hbefore⟩ := ih.mp hsome
        refine ⟨a :: before, b, after, rfl, rfl, hb, fun c hc ↦ ?_⟩
        rcases List.mem_cons.mp hc with rfl | hc
        · exact Bool.eq_false_iff.mpr ha
        · exact hbefore c hc
      · rintro ⟨before, b, after, heq, hrest, hb, hbefore⟩
        cases before with
        | nil => cases heq; exact absurd hb ha
        | cons c before =>
          cases heq
          exact ⟨before ++ after, ih.mpr ⟨before, b, after, rfl, rfl, hb,
            fun d hd ↦ hbefore d (List.mem_cons_of_mem _ hd)⟩, hrest.symm⟩

/-- Something is removed if some element has the property. -/
theorem exists_removeFirst?_eq_some {α : Type} {p : α → Bool} {as : List α} {a : α} (ha : a ∈ as)
    (hp : p a = true) : ∃ rest, removeFirst? p as = some rest := by
  induction as with
  | nil => cases ha
  | cons b as ih =>
    rw [removeFirst?]
    split
    · exact ⟨as, rfl⟩
    · next hb =>
      rcases List.mem_cons.mp ha with rfl | ha
      · exact absurd hp hb
      · obtain ⟨rest, hrest⟩ := ih ha
        exact ⟨b :: rest, by rw [hrest, Option.map_some]⟩

namespace Cond

variable {κ : Type} [CustomCondition κ]

mutual

/-- Equality up to the order of operands and the spelling of values. -/
def equal : Cond κ → Cond κ → Bool
  | fixed a, fixed b => a == b
  | test k t, test l u => k == l && t == u
  | custom a, custom b => CustomCondition.equal a b
  | negation a, negation b => equal a b
  | compound i as, compound j bs => i == j && pairUp as bs
  | _, _ => false

/-- Whether the conditions of two lists can be paired up as equals, in whatever order. -/
def pairUp : List (Cond κ) → List (Cond κ) → Bool
  | [], bs => bs.isEmpty
  | a :: as, bs =>
    match removeFirst? (equal a) bs with
    | some rest => pairUp as rest
    | none => false

end

private theorem removeFirst?_equal_cons {a b : Cond κ} (bs : List (Cond κ)) (h : equal a b = true) :
    removeFirst? (equal a) (b :: bs) = some bs := by
  rw [removeFirst?, if_pos h]

/-- Every condition equals itself. -/
theorem equal_refl (c : Cond κ) : equal c c = true := by
  induction c with
  | fixed truth => exact beq_self_eq_true truth
  | test key t => rw [equal, beq_self_eq_true, beq_self_eq_true, Bool.and_true]
  | custom leaf => exact CustomCondition.equal_refl leaf
  | negation operand ih => rwa [equal]
  | compound junction operands ih =>
    rw [equal, beq_self_eq_true, Bool.true_and]
    induction operands with
    | nil => rfl
    | cons a as ihs =>
      rw [pairUp, removeFirst?_equal_cons as (ih a List.mem_cons_self)]
      exact ihs fun operand hmem ↦ ih operand (List.mem_cons_of_mem a hmem)

/-- Tests of one field are equal if they ask the same. -/
theorem equal_test (key : RecordKey) {t u : Test} (h : (t == u) = true) :
    equal (test key t : Cond κ) (test key u) = true := by
  rw [equal, beq_self_eq_true, h, Bool.true_and]

/-- Compounds of one kind are equal if their operands pair up. -/
theorem equal_compound (j : Junction) {as bs : List (Cond κ)} (h : pairUp as bs = true) :
    equal (compound j as) (compound j bs) = true := by
  rw [equal, beq_self_eq_true, h, Bool.true_and]

/-- The first of a list has a partner, and the others pair up with what is left. -/
theorem pairUp_cons_iff {a : Cond κ} {as bs : List (Cond κ)} :
    pairUp (a :: as) bs = true ↔ ∃ before b after, bs = before ++ b :: after ∧
      equal a b = true ∧ (∀ c ∈ before, equal a c = false) ∧
      pairUp as (before ++ after) = true := by
  rw [pairUp]
  constructor
  · intro h
    split at h
    · next rest hrest =>
      obtain ⟨before, b, after, rfl, rfl, hb, hbefore⟩ := removeFirst?_eq_some_iff.mp hrest
      exact ⟨before, b, after, rfl, hb, hbefore, h⟩
    · exact nomatch h
  · rintro ⟨before, b, after, rfl, hb, hbefore, h⟩
    rw [removeFirst?_eq_some_iff.mpr ⟨before, b, after, rfl, rfl, hb, hbefore⟩]
    exact h

/-- A function that has the same value on equal conditions has the same values on conditions that
pair up as equals, in whatever order. -/
theorem map_perm_of_pairUp {β : Type} {f : Cond κ → β} {as bs : List (Cond κ)}
    (hf : ∀ a ∈ as, ∀ b, equal a b = true → f a = f b) (h : pairUp as bs = true) :
    (as.map f).Perm (bs.map f) := by
  induction as generalizing bs with
  | nil =>
    rw [pairUp, List.isEmpty_iff] at h
    rw [h]
  | cons a as ih =>
    obtain ⟨before, b, after, rfl, hb, -, hrest⟩ := pairUp_cons_iff.mp h
    have hperm := ih (fun c hc ↦ hf c (List.mem_cons_of_mem a hc)) hrest
    rw [List.map_cons, hf a List.mem_cons_self b hb]
    exact (hperm.cons _).trans (List.perm_middle.map f).symm

/-- Induction over two equal conditions: both are built in the same way, from arguments that are
equal. For compounds, the statement may be assumed of each operand and its equals. -/
@[elab_as_elim] theorem equal_induction {motive : Cond κ → Cond κ → Prop}
    (fixed : ∀ truth, motive (.fixed truth) (.fixed truth))
    (test : ∀ key {t u : Test}, (t == u) = true → motive (.test key t) (.test key u))
    (custom : ∀ {a b : κ}, CustomCondition.equal a b = true → motive (.custom a) (.custom b))
    (negation : ∀ {a b}, motive a b → motive (.negation a) (.negation b))
    (compound : ∀ j {as bs}, (∀ a ∈ as, ∀ b, equal a b = true → motive a b) →
      pairUp as bs = true → motive (.compound j as) (.compound j bs))
    {a b : Cond κ} (h : equal a b = true) : motive a b := by
  induction a generalizing b with
  | fixed truth =>
    cases b with
    | fixed other => rw [show truth = other from beq_iff_eq.mp h]; exact fixed other
    | _ => exact absurd h Bool.false_ne_true
  | test key t =>
    cases b with
    | test other u =>
      rw [equal, Bool.and_eq_true, beq_iff_eq] at h
      rw [h.1]
      exact test other h.2
    | _ => exact absurd h Bool.false_ne_true
  | custom leaf =>
    cases b with
    | custom other => exact custom h
    | _ => exact absurd h Bool.false_ne_true
  | negation operand ih =>
    cases b with
    | negation other =>
      rw [equal] at h
      exact negation (ih h)
    | _ => exact absurd h Bool.false_ne_true
  | compound j operands ih =>
    cases b with
    | compound i others =>
      rw [equal, Bool.and_eq_true, beq_iff_eq] at h
      rw [h.1]
      exact compound i (fun operand hmem _ hequal ↦ ih operand hmem hequal) h.2
    | _ => exact absurd h Bool.false_ne_true

end Cond

end Criteria
