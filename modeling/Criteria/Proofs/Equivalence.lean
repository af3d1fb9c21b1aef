import Criteria.Cond.Comparison

/-!
# Equality is an equivalence

Equality looks for partners: a set is searched for each member of the other, and each operand of a
compound takes the first of the other operands that equals it. Main statements: equality of sets, of
tests, and of conditions is an equivalence. For conditions, that of the custom conditions has to be
one.
-/

namespace Criteria

/-! ## Sets, tests and custom conditions -/

namespace OrderedSet

variable {α : Type} [BEq α]

/-- Sets are equal if they have one size and each element of the one is in the other. -/
theorem beq_iff {s t : OrderedSet α} :
    (s == t) = true ↔ s.size = t.size ∧ ∀ a ∈ s.toList, t.contains a = true := by
  rw [← beq_iff_eq (a := s.size), ← List.all_eq_true, ← Bool.and_eq_true]
  rfl

instance [EquivBEq α] : EquivBEq (OrderedSet α) where
  symm {s t} h := by
    refine beq_iff.mpr ⟨(beq_iff.mp h).1.symm, fun a ha ↦ ?_⟩
    rw [contains_congr h]
    exact contains_iff.mpr ⟨a, ha, beq_self_eq_true a⟩
  trans {s t u} hst htu := by
    refine beq_iff.mpr ⟨(beq_iff.mp hst).1.trans (beq_iff.mp htu).1, fun a ha ↦ ?_⟩
    rw [← contains_congr htu]
    exact (beq_iff.mp hst).2 a ha

end OrderedSet

namespace Test

private theorem beq_congr_left {t u : Test} (h : (t == u) = true) (v : Test) :
    (t == v) = (u == v) := by
  refine beq_cases ?_ ?_ ?_ ?_ ?_ ?_ ?_ h
  · intro operand other hvalue
    cases v with
    | equal w =>
      show (operand == w) = (other == w)
      exact BEq.congr_left hvalue
    | _ => rfl
  · intro relation operand other hvalue
    cases v with
    | ordered q w =>
      show (relation == q && operand == w) = (relation == q && other == w)
      rw [BEq.congr_left hvalue]
    | _ => rfl
  · intro members others hset
    cases v with
    | oneOf set =>
      show (members == set) = (others == set)
      exact BEq.congr_left hset
    | _ => rfl
  · intro low low' high high' hlow hhigh
    cases v with
    | between m k =>
      show (low == m && high == k) = (low' == m && high' == k)
      rw [BEq.congr_left hlow, BEq.congr_left hhigh]
    | _ => rfl
  · exact fun _ ↦ rfl
  · rfl
  · rfl

instance : EquivBEq Test where
  symm {t u} h := by
    rw [← beq_congr_left h]
    exact beq_self_eq_true t
  trans {t u v} htu huv := by
    rw [beq_congr_left htu]
    exact huv

end Test

namespace LawfulCustomCondition

variable {κ : Type} [CustomCondition κ] [LawfulCustomCondition κ]

private theorem equal_congr_left {a b : κ} (h : CustomCondition.equal a b = true) (c : κ) :
    CustomCondition.equal a c = CustomCondition.equal b c :=
  Bool.eq_iff_iff.mpr ⟨equal_trans (equal_symm h), equal_trans h⟩

private theorem equal_congr_right {a b : κ} (h : CustomCondition.equal a b = true) (c : κ) :
    CustomCondition.equal c a = CustomCondition.equal c b :=
  Bool.eq_iff_iff.mpr ⟨fun hca ↦ equal_trans hca h, fun hcb ↦ equal_trans hcb (equal_symm h)⟩

end LawfulCustomCondition

/-! ## Conditions -/

namespace Cond

variable {κ : Type} [CustomCondition κ]

/-- A condition for which each of its equals may stand on both sides of every comparison. -/
def Exchangeable (a : Cond κ) : Prop :=
  ∀ b, equal a b = true ∨ equal b a = true → ∀ c, equal a c = equal b c ∧ equal c a = equal c b

/-- An exchangeable condition and its equals are equal to the same conditions. -/
theorem Exchangeable.equal_eq {a b : Cond κ} (ha : a.Exchangeable) (h : equal a b = true) :
    equal a = equal b :=
  funext fun c ↦ (ha b (.inl h) c).1

private theorem Exchangeable.of_equal {a b : Cond κ} (ha : a.Exchangeable)
    (h : equal a b = true ∨ equal b a = true) : b.Exchangeable := by
  have hab := ha b h
  intro c hbc d
  have hac : equal a c = true ∨ equal c a = true := by
    rwa [(hab c).1, (hab c).2]
  have hacd := ha c hac d
  exact ⟨(hab d).1.symm.trans hacd.1, (hab d).2.symm.trans hacd.2⟩

private theorem Exchangeable.of_map_perm {as bs : List (Cond κ)} (has : ∀ a ∈ as, a.Exchangeable)
    (h : (as.map equal).Perm (bs.map equal)) : ∀ b ∈ bs, b.Exchangeable := by
  intro b hb
  obtain ⟨a, ha, heq⟩ := List.mem_map.mp (h.mem_iff.mpr (List.mem_map_of_mem hb))
  apply (has a ha).of_equal
  rw [heq]
  exact .inl (equal_refl b)

/-- Exchangeable conditions pair up with others exactly if those are, in some order, equal to the
same conditions. -/
theorem pairUp_iff_map_perm {as bs : List (Cond κ)} (has : ∀ a ∈ as, a.Exchangeable) :
    pairUp as bs = true ↔ (as.map equal).Perm (bs.map equal) := by
  constructor
  · exact map_perm_of_pairUp fun a ha b hab ↦ (has a ha).equal_eq hab
  · intro h
    induction as generalizing bs with
    | nil =>
      rw [pairUp, List.isEmpty_iff]
      exact List.map_eq_nil_iff.mp h.symm.eq_nil
    | cons a as ih =>
      rw [List.forall_mem_cons] at has
      obtain ⟨b, hb, heq⟩ := List.mem_map.mp (h.mem_iff.mp List.mem_cons_self)
      have hab : equal a b = true := by
        rw [← heq]
        exact equal_refl b
      -- The partner that is taken is the first one, but it is equal to the same conditions as `b`.
      obtain ⟨rest, hrest⟩ := exists_removeFirst?_eq_some hb hab
      obtain ⟨before, c, after, rfl, rfl, hac, -⟩ := removeFirst?_eq_some_iff.mp hrest
      rw [pairUp, hrest]
      apply ih has.2
      have hmiddle := h.trans (List.perm_middle.map equal)
      rw [List.map_cons, List.map_cons, has.1.equal_eq hac] at hmiddle
      exact hmiddle.cons_inv

/-- Every condition that is paired up has a partner. -/
theorem exists_partner {as bs : List (Cond κ)} (h : pairUp as bs = true) {a : Cond κ}
    (ha : a ∈ as) : ∃ b ∈ bs, equal a b = true := by
  induction as generalizing bs with
  | nil => cases ha
  | cons first as ih =>
    obtain ⟨before, b, after, rfl, hb, -, hrest⟩ := pairUp_cons_iff.mp h
    rcases List.mem_cons.mp ha with rfl | ha
    · exact ⟨b, by simp, hb⟩
    · obtain ⟨c, hc, hac⟩ := ih hrest ha
      exact ⟨c, List.mem_append.mpr ((List.mem_append.mp hc).imp_right (List.mem_cons_of_mem b)),
        hac⟩

/-- Every condition that others are paired up with is a partner of one of them. -/
theorem exists_partner_of_mem_right {as bs : List (Cond κ)} (h : pairUp as bs = true) {b : Cond κ}
    (hb : b ∈ bs) : ∃ a ∈ as, equal a b = true := by
  induction as generalizing bs with
  | nil =>
    rw [pairUp, List.isEmpty_iff] at h
    rw [h] at hb
    cases hb
  | cons a as ih =>
    obtain ⟨before, c, after, rfl, hac, -, hrest⟩ := pairUp_cons_iff.mp h
    rw [List.mem_append, List.mem_cons, or_left_comm, ← List.mem_append] at hb
    rcases hb with rfl | hb
    · exact ⟨a, List.mem_cons_self, hac⟩
    · obtain ⟨d, hd, hdb⟩ := ih hrest hb
      exact ⟨d, List.mem_cons_of_mem a hd, hdb⟩

private theorem pairUp_iff_map_perm_of_right {as bs : List (Cond κ)}
    (hbs : ∀ b ∈ bs, b.Exchangeable) :
    pairUp as bs = true ↔ (as.map equal).Perm (bs.map equal) := by
  constructor
  · intro h
    have has : ∀ a ∈ as, a.Exchangeable := by
      intro a ha
      obtain ⟨b, hb, hab⟩ := exists_partner h ha
      exact (hbs b hb).of_equal (.inr hab)
    exact (pairUp_iff_map_perm has).mp h
  · intro h
    exact (pairUp_iff_map_perm (Exchangeable.of_map_perm hbs h.symm)).mpr h

private theorem exchangeable_compound {j : Junction} {as : List (Cond κ)}
    (has : ∀ a ∈ as, a.Exchangeable) : (compound j as).Exchangeable := by
  intro b hb
  cases b with
  | compound i bs =>
    simp only [equal, Bool.and_eq_true, beq_iff_eq] at hb
    have hperm : i = j ∧ (as.map equal).Perm (bs.map equal) := by
      rcases hb with ⟨rfl, hpairs⟩ | ⟨rfl, hpairs⟩
      · exact ⟨rfl, (pairUp_iff_map_perm has).mp hpairs⟩
      · exact ⟨rfl, ((pairUp_iff_map_perm_of_right has).mp hpairs).symm⟩
    obtain ⟨rfl, hperm⟩ := hperm
    have hbs := Exchangeable.of_map_perm has hperm
    intro c
    cases c with
    | compound k cs =>
      have hleft : pairUp as cs = pairUp bs cs := by
        rw [Bool.eq_iff_iff, pairUp_iff_map_perm has, pairUp_iff_map_perm hbs]
        exact ⟨hperm.symm.trans, hperm.trans⟩
      have hright : pairUp cs as = pairUp cs bs := by
        rw [Bool.eq_iff_iff, pairUp_iff_map_perm_of_right has, pairUp_iff_map_perm_of_right hbs]
        exact ⟨fun h ↦ h.trans hperm, fun h ↦ h.trans hperm.symm⟩
      rw [equal, equal, equal, equal, hleft, hright]
      exact ⟨rfl, rfl⟩
    | _ => exact ⟨rfl, rfl⟩
  | _ => simp [equal] at hb

/-- If the equality of custom conditions is an equivalence, every condition is exchangeable. -/
theorem exchangeable [LawfulCustomCondition κ] (a : Cond κ) : a.Exchangeable := by
  induction a with
  | fixed truth =>
    intro b hb
    cases b with
    | fixed other =>
      simp only [equal, beq_iff_eq] at hb
      rcases hb with rfl | rfl
      all_goals exact fun c ↦ ⟨rfl, rfl⟩
    | _ => simp [equal] at hb
  | test key t =>
    intro b hb
    cases b with
    | test other u =>
      simp only [equal, Bool.and_eq_true, beq_iff_eq] at hb
      have hequal : key = other ∧ (t == u) = true :=
        hb.elim id fun h ↦ ⟨h.1.symm, BEq.symm h.2⟩
      obtain ⟨rfl, htest⟩ := hequal
      intro c
      cases c with
      | test third v =>
        rw [equal, equal, equal, equal, BEq.congr_left htest, BEq.congr_right htest]
        exact ⟨rfl, rfl⟩
      | _ => exact ⟨rfl, rfl⟩
    | _ => simp [equal] at hb
  | custom leaf =>
    intro b hb
    cases b with
    | custom other =>
      simp only [equal] at hb
      have hequal : CustomCondition.equal leaf other = true :=
        hb.elim id LawfulCustomCondition.equal_symm
      intro c
      cases c with
      | custom third =>
        exact ⟨LawfulCustomCondition.equal_congr_left hequal third,
          LawfulCustomCondition.equal_congr_right hequal third⟩
      | _ => exact ⟨rfl, rfl⟩
    | _ => simp [equal] at hb
  | negation operand ih =>
    intro b hb
    cases b with
    | negation other =>
      intro c
      cases c with
      | negation third => exact ih other hb third
      | _ => exact ⟨rfl, rfl⟩
    | _ => simp [equal] at hb
  | compound j operands ih => exact exchangeable_compound ih

instance [LawfulCustomCondition κ] : EquivBEq (Cond κ) where
  symm {a b} h := by
    rw [beq_def] at h ⊢
    rw [← (a.exchangeable b (.inl h) a).1, equal_refl]
  trans {a b c} hab hbc := by
    rw [beq_def] at hab hbc ⊢
    rw [(a.exchangeable b (.inl hab) c).1, hbc]

end Cond

end Criteria
