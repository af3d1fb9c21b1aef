import Mathlib.Algebra.Field.Rat
import Mathlib.Data.List.Perm.Basic
import Mathlib.Tactic.NormNum
import Criteria.Proofs.Canonical

/-!
# What equality ignores

Equality looks past three things: the places a number is written with, the order of the members of a
set, and the order of the operands of a compound, at whatever depth. Main statements: two conditions
are equal exactly if changing these leads from the one to the other, and building respects equality.
-/

namespace Criteria

/-! ## Equal elements in another order -/

section Order

variable {α : Type} [BEq α] [EquivBEq α]

private theorem map_beq_perm_iff {as bs : List α} :
    (as.map fun a c ↦ a == c).Perm (bs.map fun b c ↦ b == c) ↔
      ∃ middle, List.Forall₂ (fun a b ↦ (a == b) = true) as middle ∧ middle.Perm bs := by
  constructor
  · intro h
    have hself : List.Forall₂ (fun f b ↦ f = (b == ·)) (bs.map fun b c ↦ b == c) bs :=
      List.forall₂_map_left_iff.mpr (List.forall₂_same.mpr fun _ _ ↦ rfl)
    obtain ⟨middle, hmiddle, hperm⟩ := List.perm_comp_forall₂ h hself
    refine ⟨middle, ?_, hperm⟩
    exact (List.forall₂_map_left_iff.mp hmiddle).imp fun a b hab ↦ beq_eq_beq_iff.mp hab
  · rintro ⟨middle, hequal, hperm⟩
    have hmap : (as.map fun a c ↦ a == c) = middle.map fun b c ↦ b == c := by
      rw [← List.forall₂_eq_eq_eq, List.forall₂_map_left_iff, List.forall₂_map_right_iff]
      exact hequal.imp fun a b hab ↦ beq_eq_beq_iff.mpr hab
    rw [hmap]
    exact hperm.map _

/-- Sets are equal exactly if one becomes the other when elements are replaced by equal ones and
then reordered. -/
theorem OrderedSet.beq_iff_exists_perm {s t : OrderedSet α} : (s == t) = true ↔
    ∃ middle, List.Forall₂ (fun a b ↦ (a == b) = true) s.toList middle ∧
      middle.Perm t.toList := by
  rw [← map_beq_perm_iff]
  constructor
  · exact map_perm_of_beq fun hab ↦ beq_eq_beq_iff.mpr hab
  · intro hperm
    refine beq_iff.mpr ⟨by simpa [size] using hperm.length_eq, fun a ha ↦ ?_⟩
    obtain ⟨b, hb, hba⟩ := List.mem_map.mp (hperm.mem_iff.mp (List.mem_map_of_mem ha))
    exact contains_iff.mpr ⟨b, hb, beq_eq_beq_iff.mp hba⟩

end Order

/-! ## Values and tests -/

/-- The numeric value. -/
def Decimal.toRat (d : Decimal) : ℚ := d.signed / 10 ^ d.scale

/-- Decimals are equal exactly if they have one numeric value. -/
theorem Decimal.beq_iff_toRat_eq {a b : Decimal} : (a == b) = true ↔ a.toRat = b.toRat := by
  have hpow (d : Decimal) : (10 ^ d.scale : ℚ) ≠ 0 := pow_ne_zero _ (by norm_num)
  rw [beq_iff, toRat, toRat, div_eq_div_iff (hpow a) (hpow b)]
  norm_cast

/-- Values that may only differ in how a number is written. -/
inductive Value.Respelled : Value → Value → Prop
  /-- A value is written as it is. -/
  | same (v : Value) : Respelled v v
  /-- A number is written in another way. -/
  | number {a b : Decimal} (h : a.toRat = b.toRat) : Respelled (.number a) (.number b)

/-- Values are equal exactly if they differ at most in how a number is written. -/
theorem Value.beq_iff_respelled {v w : Value} : (v == w) = true ↔ v.Respelled w := by
  constructor
  · intro h
    cases v with
    | boolean a =>
      cases w with
      | boolean b => rw [show a = b from beq_iff_eq.mp h]; exact .same _
      | _ => exact absurd h Bool.false_ne_true
    | number a =>
      cases w with
      | number b => exact .number (Decimal.beq_iff_toRat_eq.mp h)
      | _ => exact absurd h Bool.false_ne_true
    | string a =>
      cases w with
      | string b => rw [show a = b from beq_iff_eq.mp h]; exact .same _
      | _ => exact absurd h Bool.false_ne_true
  · intro h
    cases h with
    | same => exact beq_self_eq_true v
    | number h => exact Decimal.beq_iff_toRat_eq.mpr h

/-- Tests that may only differ in how numbers are written and in the order of the members of a set.
-/
inductive Test.Respelled : Test → Test → Prop
  /-- A test is kept. -/
  | same (t : Test) : Respelled t t
  /-- The operand of an equality is written in another way. -/
  | equal {v w : Value} (h : v.Respelled w) : Respelled (.equal v) (.equal w)
  /-- The operand of an ordering test is written in another way. -/
  | ordered (relation : Relation) {v w : Value} (h : v.Respelled w) :
    Respelled (.ordered relation v) (.ordered relation w)
  /-- Members are written in another way, and then reordered. -/
  | oneOf {s t : OrderedSet Value} {middle : List Value}
    (hspelled : List.Forall₂ Value.Respelled s.toList middle) (hperm : middle.Perm t.toList) :
    Respelled (.oneOf s) (.oneOf t)
  /-- Bounds are written in another way. -/
  | between {l m h k : Value} (hlow : l.Respelled m) (hhigh : h.Respelled k) :
    Respelled (.between l h) (.between m k)

/-- Tests are equal exactly if they differ at most in how numbers are written and in the order of
members. -/
theorem Test.beq_iff_respelled {t u : Test} : (t == u) = true ↔ t.Respelled u := by
  constructor
  · refine beq_cases ?_ ?_ ?_ ?_ ?_ ?_ ?_
    · exact fun h ↦ .equal (Value.beq_iff_respelled.mp h)
    · exact fun relation _ _ h ↦ .ordered relation (Value.beq_iff_respelled.mp h)
    · intro s t h
      obtain ⟨middle, hequal, hperm⟩ := OrderedSet.beq_iff_exists_perm.mp h
      exact .oneOf (hequal.imp fun _ _ ↦ Value.beq_iff_respelled.mp) hperm
    · exact fun hlow hhigh ↦
        .between (Value.beq_iff_respelled.mp hlow) (Value.beq_iff_respelled.mp hhigh)
    · exact fun _ ↦ .same _
    · exact .same _
    · exact .same _
  · intro h
    cases h with
    | same => exact beq_self_eq_true t
    | equal h => exact Value.beq_iff_respelled.mpr h
    | ordered relation h =>
      exact Bool.and_eq_true_iff.mpr ⟨beq_self_eq_true _, Value.beq_iff_respelled.mpr h⟩
    | oneOf hspelled hperm =>
      exact OrderedSet.beq_iff_exists_perm.mpr
        ⟨_, hspelled.imp fun _ _ ↦ Value.beq_iff_respelled.mpr, hperm⟩
    | between hlow hhigh =>
      exact Bool.and_eq_true_iff.mpr
        ⟨Value.beq_iff_respelled.mpr hlow, Value.beq_iff_respelled.mpr hhigh⟩

/-! ## Conditions -/

namespace Cond

variable {κ : Type} [CustomCondition κ]

/-- Conditions of which one becomes the other when, at whatever depth, numbers are written in
another way, custom conditions are replaced by equal ones, and members or operands are reordered. -/
inductive Rearranged : Cond κ → Cond κ → Prop
  /-- Nothing is changed. -/
  | refl (c : Cond κ) : Rearranged c c
  /-- Changes are made in turn. -/
  | trans {c d e : Cond κ} (hcd : Rearranged c d) (hde : Rearranged d e) : Rearranged c e
  /-- A test is written in another way. -/
  | test (key : RecordKey) {t u : Test} (h : t.Respelled u) :
    Rearranged (.test key t) (.test key u)
  /-- A custom condition is replaced. -/
  | custom {a b : κ} (h : CustomCondition.equal a b = true) :
    Rearranged (.custom a) (.custom b)
  /-- Changes are made below a negation. -/
  | negation {c d : Cond κ} (h : Rearranged c d) : Rearranged (.negation c) (.negation d)
  /-- The operands of a compound are reordered. -/
  | order (j : Junction) {as bs : List (Cond κ)} (h : as.Perm bs) :
    Rearranged (.compound j as) (.compound j bs)
  /-- Changes are made in one operand of a compound. -/
  | operand (j : Junction) (before after : List (Cond κ)) {c d : Cond κ} (h : Rearranged c d) :
    Rearranged (.compound j (before ++ c :: after)) (.compound j (before ++ d :: after))

private theorem Rearranged.operands (j : Junction) {as bs : List (Cond κ)}
    (h : List.Forall₂ Rearranged as bs) : Rearranged (compound j as) (compound j bs) := by
  -- The operands before those that are still to be changed have been changed already.
  have hafter (before : List (Cond κ)) :
      Rearranged (compound j (before ++ as)) (compound j (before ++ bs)) := by
    induction h generalizing before with
    | nil => exact .refl _
    | @cons a b as bs hab _ ih =>
      apply Rearranged.trans (.operand j before as hab)
      simpa using ih (before ++ [b])
  exact hafter []

variable [LawfulCustomCondition κ]

private theorem pairUp_iff_exists_perm {as bs : List (Cond κ)} : pairUp as bs = true ↔
    ∃ middle, List.Forall₂ (fun a b ↦ (a == b) = true) as middle ∧ middle.Perm bs := by
  have hbeq : (fun a b : Cond κ ↦ a == b) = equal := funext fun a ↦ funext fun b ↦ beq_def a b
  rw [pairUp_iff_map_perm fun a _ ↦ a.exchangeable, ← map_beq_perm_iff, hbeq]

private theorem beq_compound_of_exists_perm (j : Junction) {as middle bs : List (Cond κ)}
    (hequal : List.Forall₂ (fun a b ↦ (a == b) = true) as middle) (hperm : middle.Perm bs) :
    (compound j as == compound j bs) = true := by
  rw [beq_def]
  exact equal_compound j (pairUp_iff_exists_perm.mpr ⟨middle, hequal, hperm⟩)

/-- Conditions are equal exactly if they can be rearranged into each other. -/
theorem beq_iff_rearranged {c d : Cond κ} : (c == d) = true ↔ c.Rearranged d := by
  constructor
  · intro h
    rw [beq_def] at h
    refine equal_induction ?_ ?_ ?_ ?_ ?_ h
    · exact fun truth ↦ .refl _
    · exact fun key _ _ htest ↦ .test key (Test.beq_iff_respelled.mp htest)
    · exact fun hequal ↦ .custom hequal
    · exact fun hoperand ↦ .negation hoperand
    · intro j as bs hoperands hpairs
      obtain ⟨middle, hequal, hperm⟩ := pairUp_iff_exists_perm.mp hpairs
      have hrearranged : List.Forall₂ Rearranged as middle :=
        ((List.forall₂_and_left as middle).mpr ⟨hoperands, hequal⟩).imp fun a b hab ↦
          hab.1 b ((beq_def a b).symm.trans hab.2)
      exact (Rearranged.operands j hrearranged).trans (.order j hperm)
  · intro h
    have hself (cs : List (Cond κ)) : List.Forall₂ (fun a b ↦ (a == b) = true) cs cs :=
      List.forall₂_same.mpr fun c _ ↦ beq_self_eq_true c
    induction h with
    | refl c => exact beq_self_eq_true c
    | trans _ _ hcd hde => exact BEq.trans hcd hde
    | test key h =>
      rw [beq_def]
      exact equal_test key (Test.beq_iff_respelled.mpr h)
    | custom h =>
      rw [beq_def]
      exact h
    | negation _ ih =>
      rw [beq_def] at ih ⊢
      exact ih
    | order j h => exact beq_compound_of_exists_perm j (hself _) h
    | operand j before after _ ih =>
      exact beq_compound_of_exists_perm j
        (List.rel_append (hself before) (.cons ih (hself after))) (.refl _)

end Cond

/-! ## Building respects equality -/

private theorem Junction.joined_eq_of_forall₂ {κ : Type} [CustomCondition κ]
    [LawfulCustomCondition κ] {j : Junction} {xs ys : List (Cond κ)}
    (h : List.Forall₂ (fun x y ↦ (x == y) = true) xs ys) : j.joined xs = j.joined ys :=
  joined_eq_of_matching (.of_forall₂ h)

namespace Cond

/-- Equality is an equivalence. At every depth it ignores how numbers are written, the order of
members and of operands, and what the equality of custom conditions ignores, and nothing else.
Compounds that can be built are equal exactly if they join equally many operands in the same way and
each operand of the one has an equal one in the other. The negations of equal conditions are equal,
and so are the junctions of operands that are equal one by one. -/
theorem beq_congruence (κ : Type) [CustomCondition κ] [LawfulCustomCondition κ] :
    (∀ c : Cond κ, (c == c) = true) ∧
      (∀ c d : Cond κ, (c == d) = true → (d == c) = true) ∧
      (∀ c d e : Cond κ, (c == d) = true → (d == e) = true → (c == e) = true) ∧
      (∀ c d : Cond κ, (c == d) = true ↔ c.Rearranged d) ∧
      (∀ i j (as bs : List (Cond κ)), (compound i as).Reachable →
        ((compound i as == compound j bs) = true ↔
          i = j ∧ as.length = bs.length ∧ ∀ a ∈ as, ∃ b ∈ bs, (b == a) = true)) ∧
      (∀ c d : Cond κ, (c == d) = true → (c.not == d.not) = true) ∧
      (∀ (j : Junction) (xs ys : List (Cond κ)),
        List.Forall₂ (fun x y ↦ (x == y) = true) xs ys → (j.make xs == j.make ys) = true) := by
  refine ⟨beq_self_eq_true, fun c d h ↦ BEq.symm h, fun c d e hcd hde ↦ BEq.trans hcd hde,
    fun c d ↦ beq_iff_rearranged, ?_, fun c d ↦ beq_not, ?_⟩
  · intro i j as bs h
    exact beq_compound_iff h.everywhere_isNormal.self.different
  · intro j xs ys h
    exact Junction.beq_make_of_joined_eq (Junction.joined_eq_of_forall₂ h)

/-- Members, operands at two depths and the case of a tag differ. -/
theorem beq_congruence_marked : ∃ c d : Cond Marked,
    c = .or [.not (.and [.custom ⟨.loose, "Ab"⟩,
        .memberOf ⟨"n", rfl⟩ [.number ⟨false, 5, 0⟩, .string "x"]]), .custom ⟨.bare, "one"⟩] ∧
      d = .or [.custom ⟨.bare, "two"⟩, .not (.and [
        .memberOf ⟨"n", rfl⟩ [.string "x", .number ⟨false, 500, 2⟩], .custom ⟨.loose, "aB"⟩])] ∧
      c.Rearranged d ∧ (d == c) = true ∧ (d.not == c.not) = true := by
  obtain ⟨-, hsymm, -, hrearranged, -, hnot, -⟩ := beq_congruence Marked
  refine ⟨_, _, rfl, rfl, (hrearranged _ _).mp ?equal, hsymm _ _ ?equal,
    hnot _ _ (hsymm _ _ ?equal)⟩
  decide +kernel

end Cond

end Criteria
