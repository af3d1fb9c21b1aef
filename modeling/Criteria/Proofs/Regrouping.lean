import Criteria.Proofs.Canonical

/-!
# Regrouping operands

Some of the operands of a junction may be joined among themselves first. What is joined first is
reduced on its own, before anything is known of the other operands. Main statement: this does not
show in the result, down to the order of the operands and the spelling of their values.
-/

namespace Criteria

/-! ## Insertion of reduced lists -/

namespace OrderedSet

variable {α : Type} [BEq α]

private theorem insert_eq_self {s : OrderedSet α} {a : α} (h : s.contains a = true) :
    s.insert a = s := by
  apply ext
  rw [toList_insert, if_pos h]

variable [EquivBEq α]

private theorem insertAll_toList_insertAll (s t : OrderedSet α) (items : List α) :
    s.insertAll (t.insertAll items).toList = (s.insertAll t.toList).insertAll items := by
  induction items generalizing t with
  | nil => simp
  | cons a items ih =>
    rw [insertAll_cons, insertAll_cons, ih (t.insert a)]
    congr 1
    rw [toList_insert]
    by_cases h : t.contains a = true
    · have hpresent : (s.insertAll t.toList).contains a = true := by
        rw [contains_insertAll, ← contains, h, Bool.or_true]
      rw [if_pos h, insert_eq_self hpresent]
    · rw [if_neg h, insertAll_append, insertAll_cons, insertAll_nil]

private theorem insertAll_toList_ofList (s : OrderedSet α) (items : List α) :
    s.insertAll (ofList items).toList = s.insertAll items := by
  rw [ofList, insertAll_toList_insertAll, toList_empty, insertAll_nil]

end OrderedSet

/-! ## Junctions of junctions -/

namespace Junction

variable {κ : Type} [CustomCondition κ]

/-- A junction depends on its operands only through the different conditions they contribute. -/
theorem make_congr {j : Junction} {xs ys : List (Cond κ)} (h : j.flatten xs = j.flatten ys) :
    j.make xs = j.make ys := by
  rw [make, make, h]

variable [LawfulCustomCondition κ]

private theorem isDecided_mono {j : Junction} {s t : OrderedSet (Cond κ)}
    (hsubset : ∀ a, s.contains a = true → t.contains a = true) (h : j.isDecided s = true) :
    j.isDecided t = true := by
  rw [isDecided, Bool.or_eq_true, isContradictory_iff] at h ⊢
  rcases h with hconstant | ⟨x, hx, y, hy, hnot⟩
  · exact .inl (hsubset _ hconstant)
  · exact .inr ⟨x, hsubset x hx, y, hsubset y hy, hnot⟩

private theorem make_eq_absorbing_of_group {j : Junction} {ys : List (Cond κ)}
    (h : j.make ys = .fixed j.absorbing) (xs zs : List (Cond κ)) :
    j.make (xs ++ ys ++ zs) = .fixed j.absorbing := by
  rw [make_eq_absorbing_iff] at h ⊢
  apply isDecided_mono _ h
  intro a ha
  rw [flatten, OrderedSet.contains_ofList] at ha ⊢
  simp only [List.flatMap_append, List.any_append, ha, Bool.or_true, Bool.true_or]

/-- Operands that do not decide a junction contribute the same different conditions in the same
order when they are joined first. -/
theorem flatten_group {j : Junction} {ys : List (Cond κ)} (hys : ∀ y ∈ ys, y.IsNormal)
    (hne : j.make ys ≠ .fixed j.absorbing) (xs zs : List (Cond κ)) :
    j.flatten (xs ++ [j.make ys] ++ zs) = j.flatten (xs ++ ys ++ zs) := by
  simp only [flatten, OrderedSet.ofList, List.flatMap_append, List.flatMap_singleton,
    OrderedSet.insertAll_append]
  rw [parts_make hys hne, flatten, OrderedSet.insertAll_toList_ofList]

/-- Joining some of the operands first leads to the same condition. -/
theorem make_group (j : Junction) (xs : List (Cond κ)) {ys : List (Cond κ)}
    (hys : ∀ y ∈ ys, y.Reachable) (zs : List (Cond κ)) :
    j.make (xs ++ [j.make ys] ++ zs) = j.make (xs ++ ys ++ zs) := by
  by_cases h : j.make ys = .fixed j.absorbing
  · rw [make_eq_absorbing_of_group h, h]
    apply make_eq_absorbing_of_mem
    simp
  · apply make_congr
    exact flatten_group (fun y hy ↦ (hys y hy).everywhere_isNormal.self) h xs zs

/-- The group repeats an operand with another scale, in a junction of the same kind. In the other
group stands the negation of an operand that follows it. -/
theorem make_group_respelled : ∃ xs ys zs : List (Cond Tagged),
    xs = [.test ⟨"n", rfl⟩ (.equal (.number ⟨false, 5, 0⟩)), .custom ⟨"t"⟩] ∧
      ys = [.test ⟨"a", rfl⟩ .isTrue,
        .and [.test ⟨"n", rfl⟩ (.equal (.number ⟨false, 50, 1⟩)), .test ⟨"a", rfl⟩ .isTrue],
        .fixed true] ∧
      zs = [.not (.test ⟨"b", rfl⟩ .isNull)] ∧
      (∀ y ∈ ys, y.Reachable) ∧
      Junction.and.make (xs ++ [.and ys] ++ zs) = Junction.and.make (xs ++ ys ++ zs) ∧
      Junction.or.make ([] ++ [.or zs] ++ [.test ⟨"b", rfl⟩ .isNull]) = .fixed true := by
  have hitem (key : RecordKey) {t : Test} (h : t.kind ≠ .oneOf) :
      (Cond.test key t : Cond Tagged).Reachable := .test key h
  refine ⟨_, _, _, rfl, rfl, rfl, ?reachable, make_group .and _ ?reachable _,
    (make_group .or [] ?_ _).trans ?_⟩
  · simp only [List.forall_mem_cons]
    exact ⟨hitem _ (by decide), .make_pair .and (hitem _ (by decide)) (hitem _ (by decide)),
      .fixed _, List.forall_mem_nil _⟩
  · simp only [List.forall_mem_cons]
    exact ⟨(hitem _ (by decide)).not, List.forall_mem_nil _⟩
  · exact Cond.beq_fixed_iff.mp (by decide +kernel)

end Junction

end Criteria
