import Mathlib.Data.List.Perm.Subperm
import Criteria.Proofs.Equivalence
import Criteria.Proofs.Traversal

/-!
# Lists with the same elements

Sets and junctions look past the order of what they are made of, and past repetitions. Main
statements: lists that match in this sense have equal sets, functions and traversals that respect
equality keep lists matching, and operands that pair up match.
-/

namespace Criteria

/-! ## Sets with the same elements -/

section SameElements

variable {α : Type} [BEq α] [EquivBEq α]

/-- Elements are equal exactly if they equal the same elements. -/
theorem beq_eq_beq_iff {a b : α} : (a == ·) = (b == ·) ↔ (a == b) = true := by
  constructor
  · intro h
    rw [congrFun h b]
    exact beq_self_eq_true b
  · exact fun h ↦ funext fun _ ↦ BEq.congr_left h

namespace OrderedSet

/-- Different elements stay different when each is replaced by the question of what equals it. -/
theorem nodup_map_beq (s : OrderedSet α) : (s.toList.map fun a b ↦ a == b).Nodup := by
  apply List.pairwise_map.mpr
  apply s.distinct.imp
  intro a b hab heq
  rw [beq_eq_beq_iff.mp heq] at hab
  cases hab

/-- A set whose elements are all in another one is no larger. -/
theorem size_le_of_forall_contains {s t : OrderedSet α}
    (h : ∀ a ∈ s.toList, t.contains a = true) : s.size ≤ t.size := by
  have hsubset : (s.toList.map fun a b ↦ a == b) ⊆ t.toList.map fun a b ↦ a == b := by
    intro f hf
    obtain ⟨a, ha, rfl⟩ := List.mem_map.mp hf
    obtain ⟨b, hb, hba⟩ := contains_iff.mp (h a ha)
    exact List.mem_map.mpr ⟨b, hb, beq_eq_beq_iff.mpr hba⟩
  simpa [size] using (List.subperm_of_subset s.nodup_map_beq hsubset).length_le

/-- Sets that contain the same are equal. -/
theorem beq_of_contains_eq {s t : OrderedSet α} (h : ∀ a, s.contains a = t.contains a) :
    (s == t) = true := by
  have hself {u : OrderedSet α} {a : α} (ha : a ∈ u.toList) : u.contains a = true :=
    contains_iff.mpr ⟨a, ha, beq_self_eq_true a⟩
  have hst : ∀ a ∈ s.toList, t.contains a = true := fun a ha ↦ h a ▸ hself ha
  have hts : ∀ a ∈ t.toList, s.contains a = true := fun a ha ↦ h a ▸ hself ha
  exact beq_iff.mpr ⟨Nat.le_antisymm (size_le_of_forall_contains hst)
    (size_le_of_forall_contains hts), hst⟩

end OrderedSet

end SameElements

/-! ## Lists with the same elements -/

/-- Lists of which each element equals one of the other list. -/
structure Matching {α : Type} [BEq α] (as bs : List α) : Prop where
  /-- Each element of the first list has an equal one in the second. -/
  left : ∀ a ∈ as, ∃ b ∈ bs, (a == b) = true
  /-- Each element of the second list has an equal one in the first. -/
  right : ∀ b ∈ bs, ∃ a ∈ as, (a == b) = true

namespace Matching

variable {α β ε : Type} [BEq α] [BEq β] {as bs : List α}

/-- Matching does not depend on the side. -/
theorem symm [PartialEquivBEq α] (h : Matching as bs) : Matching bs as where
  left b hb := by
    obtain ⟨a, ha, hab⟩ := h.right b hb
    exact ⟨a, ha, BEq.symm hab⟩
  right a ha := by
    obtain ⟨b, hb, hab⟩ := h.left a ha
    exact ⟨b, hb, BEq.symm hab⟩

/-- Lists that are made of matching ones match if equal elements are made into matching lists. -/
theorem flatMap {f : α → List β} (h : Matching as bs)
    (hf : ∀ a ∈ as, ∀ b, (a == b) = true → Matching (f a) (f b)) :
    Matching (as.flatMap f) (bs.flatMap f) where
  left x hx := by
    obtain ⟨a, ha, hxa⟩ := List.mem_flatMap.mp hx
    obtain ⟨b, hb, hab⟩ := h.left a ha
    obtain ⟨y, hy, hxy⟩ := (hf a ha b hab).left x hxa
    exact ⟨y, List.mem_flatMap.mpr ⟨b, hb, hy⟩, hxy⟩
  right y hy := by
    obtain ⟨b, hb, hyb⟩ := List.mem_flatMap.mp hy
    obtain ⟨a, ha, hab⟩ := h.right b hb
    obtain ⟨x, hx, hxy⟩ := (hf a ha b hab).right y hyb
    exact ⟨x, List.mem_flatMap.mpr ⟨a, ha, hx⟩, hxy⟩

/-- Lists of elements that are equal one by one match. -/
theorem of_forall₂ (h : List.Forall₂ (fun a b ↦ (a == b) = true) as bs) : Matching as bs :=
  ⟨fun _ ↦ exists_of_mem_left h, fun _ ↦ exists_of_mem_right h⟩

/-- A function that respects equality keeps lists matching. -/
theorem map {f : α → β} (h : Matching as bs)
    (hf : ∀ a ∈ as, ∀ b, (a == b) = true → (f a == f b) = true) :
    Matching (as.map f) (bs.map f) := by
  rw [List.map_eq_flatMap, List.map_eq_flatMap]
  refine h.flatMap fun a ha b hab ↦ ⟨?_, ?_⟩
  · simpa using hf a ha b hab
  · simpa using hf a ha b hab

/-- A traversal that respects equality succeeds on both of two matching lists, with results that
match, if it succeeds on the first. -/
theorem mapM {f : α → Except ε β} (h : Matching as bs)
    (hf : ∀ a ∈ as, ∀ b, (a == b) = true → ∀ x, f a = .ok x →
      ∃ y, f b = .ok y ∧ (x == y) = true)
    {xs : List β} (hxs : as.mapM f = .ok xs) :
    ∃ ys, bs.mapM f = .ok ys ∧ Matching xs ys := by
  have hsucceeds : ∀ b ∈ bs, ∃ y, f b = .ok y := by
    intro b hb
    obtain ⟨a, ha, hab⟩ := h.right b hb
    obtain ⟨x, -, hx⟩ := exists_result_of_mapM_eq_ok hxs ha
    obtain ⟨y, hy, -⟩ := hf a ha b hab x hx
    exact ⟨y, hy⟩
  obtain ⟨ys, hys⟩ := exists_mapM_eq_ok hsucceeds
  refine ⟨ys, hys, fun x hx ↦ ?_, fun y hy ↦ ?_⟩
  · obtain ⟨a, ha, hax⟩ := exists_mem_of_mapM_eq_ok hxs hx
    obtain ⟨b, hb, hab⟩ := h.left a ha
    obtain ⟨y, hby, hxy⟩ := hf a ha b hab x hax
    obtain ⟨y', hy', hby'⟩ := exists_result_of_mapM_eq_ok hys hb
    rw [hby] at hby'
    cases hby'
    exact ⟨y, hy', hxy⟩
  · obtain ⟨b, hb, hby⟩ := exists_mem_of_mapM_eq_ok hys hy
    obtain ⟨a, ha, hab⟩ := h.right b hb
    obtain ⟨x, hx, hax⟩ := exists_result_of_mapM_eq_ok hxs ha
    obtain ⟨y', hby', hxy⟩ := hf a ha b hab x hax
    rw [hby] at hby'
    cases hby'
    exact ⟨x, hx, hxy⟩

variable [EquivBEq α]

/-- Equal sets list matching elements. -/
theorem of_beq {s t : OrderedSet α} (h : (s == t) = true) : Matching s.toList t.toList := by
  have hleft {s t : OrderedSet α} (h : (s == t) = true) (a : α) (ha : a ∈ s.toList) :
      ∃ b ∈ t.toList, (b == a) = true :=
    OrderedSet.contains_iff.mp ((OrderedSet.beq_iff.mp h).2 a ha)
  refine ⟨fun a ha ↦ ?_, hleft (BEq.symm h)⟩
  obtain ⟨b, hb, hba⟩ := hleft h a ha
  exact ⟨b, hb, BEq.symm hba⟩

/-- Matching lists have equal sets. -/
theorem beq_ofList (h : Matching as bs) :
    (OrderedSet.ofList as == OrderedSet.ofList bs) = true := by
  apply OrderedSet.beq_of_contains_eq
  intro a
  rw [OrderedSet.contains_ofList, OrderedSet.contains_ofList, Bool.eq_iff_iff, List.any_eq_true,
    List.any_eq_true]
  constructor
  · rintro ⟨x, hx, hxa⟩
    obtain ⟨y, hy, hxy⟩ := h.left x hx
    exact ⟨y, hy, BEq.trans (BEq.symm hxy) hxa⟩
  · rintro ⟨y, hy, hya⟩
    obtain ⟨x, hx, hxy⟩ := h.right y hy
    exact ⟨x, hx, BEq.trans hxy hya⟩

end Matching

variable {κ : Type} [CustomCondition κ]

/-- Conditions that pair up match. -/
theorem Matching.of_pairUp {as bs : List (Cond κ)} (h : Cond.pairUp as bs = true) :
    Matching as bs where
  left a ha := by
    obtain ⟨b, hb, hab⟩ := Cond.exists_partner h ha
    exact ⟨b, hb, (Cond.beq_def a b).trans hab⟩
  right b hb := by
    obtain ⟨a, ha, hab⟩ := Cond.exists_partner_of_mem_right h hb
    exact ⟨a, ha, (Cond.beq_def a b).trans hab⟩

end Criteria
