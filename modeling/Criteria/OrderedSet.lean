/-!
# Sets that keep insertion order

A set without two equal elements, equality being the element type's own `==`. Its list view shows
the elements in the order in which each was first inserted, with the spelling it was inserted in.
Equality of sets ignores the order.
-/

namespace Criteria

/-- A list whose elements are pairwise different under `==`. -/
structure OrderedSet (α : Type) [BEq α] where
  /-- The elements in the order of their first insertion. -/
  toList : List α
  /-- No element equals an earlier one. -/
  distinct : toList.Pairwise fun earlier later ↦ (earlier == later) = false

namespace OrderedSet

variable {α : Type} [BEq α]

/-- The set without elements. -/
def empty : OrderedSet α := ⟨[], .nil⟩

instance : Inhabited (OrderedSet α) := ⟨empty⟩

/-- The number of elements. -/
def size (s : OrderedSet α) : Nat := s.toList.length

/-- Whether some element equals the given one. -/
def contains (s : OrderedSet α) (a : α) : Bool := s.toList.any (· == a)

/-- Adds an element at the end, unless an equal one is there already. -/
def insert (s : OrderedSet α) (a : α) : OrderedSet α :=
  if h : s.contains a = true then s
  else
    { toList := s.toList ++ [a]
      distinct := by
        rw [List.pairwise_append]
        refine ⟨s.distinct, List.pairwise_singleton .., fun b hb c hc ↦ ?_⟩
        rw [List.mem_singleton] at hc
        subst hc
        simpa using (List.any_eq_false.mp (Bool.eq_false_iff.mpr h)) b hb }

/-- Inserts an element, and tells whether it is new to the set. -/
def tryInsert (s : OrderedSet α) (a : α) : Bool × OrderedSet α := (!s.contains a, s.insert a)

/-- Inserts the elements of a list from left to right. -/
def insertAll (s : OrderedSet α) (items : List α) : OrderedSet α := items.foldl insert s

/-- The set of the elements of a list, each where it stands first. -/
def ofList (items : List α) : OrderedSet α := empty.insertAll items

/-- The element inserted first. -/
def first? (s : OrderedSet α) : Option α := s.toList.head?

/-- Sets are equal if they have as many elements and each of the one is in the other. -/
instance : BEq (OrderedSet α) where
  beq s t := s.size == t.size && s.toList.all t.contains

instance [ReflBEq α] : ReflBEq (OrderedSet α) where
  rfl {s} := by
    change (s.size == s.size && s.toList.all s.contains) = true
    rw [beq_self_eq_true, Bool.true_and, List.all_eq_true]
    exact fun a ha ↦ List.any_eq_true.mpr ⟨a, ha, beq_self_eq_true a⟩

/-- The list view determines the set. -/
theorem ext {s t : OrderedSet α} (h : s.toList = t.toList) : s = t := by
  cases s
  cases t
  cases h
  rfl

/-- The empty set has no elements. -/
@[simp] theorem toList_empty : (empty : OrderedSet α).toList = [] := rfl

/-- An insertion adds the element at the end unless the set has an equal one. -/
theorem toList_insert (s : OrderedSet α) (a : α) :
    (s.insert a).toList = if s.contains a then s.toList else s.toList ++ [a] := by
  unfold insert
  split <;> simp_all

/-- Inserting nothing changes nothing. -/
@[simp] theorem insertAll_nil (s : OrderedSet α) : s.insertAll [] = s := rfl

/-- A list is inserted from its head on. -/
@[simp] theorem insertAll_cons (s : OrderedSet α) (a : α) (items : List α) :
    s.insertAll (a :: items) = (s.insert a).insertAll items := rfl

/-- Inserting two lists in turn inserts their concatenation. -/
theorem insertAll_append (s : OrderedSet α) (items others : List α) :
    s.insertAll (items ++ others) = (s.insertAll items).insertAll others :=
  List.foldl_append

private theorem exists_toList_insertAll (s : OrderedSet α) (items : List α) :
    ∃ added, added.Sublist items ∧ (s.insertAll items).toList = s.toList ++ added := by
  induction items generalizing s with
  | nil => exact ⟨[], .slnil, by simp⟩
  | cons a items ih =>
    obtain ⟨added, hsub, heq⟩ := ih (s.insert a)
    rw [insertAll_cons, heq, toList_insert]
    split
    · exact ⟨added, hsub.cons a, rfl⟩
    · exact ⟨a :: added, hsub.cons_cons a, by simp⟩

/-- The set of a list shows some of its elements, in order. -/
theorem toList_ofList_sublist (items : List α) : (ofList items).toList.Sublist items := by
  obtain ⟨added, hsub, heq⟩ := exists_toList_insertAll empty items
  rw [ofList, heq]
  simpa using hsub

private theorem toList_insertAll_of_distinct {s : OrderedSet α} {items : List α}
    (h : (s.toList ++ items).Pairwise fun earlier later ↦ (earlier == later) = false) :
    (s.insertAll items).toList = s.toList ++ items := by
  induction items generalizing s with
  | nil => simp
  | cons a items ih =>
    have hnew : s.contains a = false :=
      List.any_eq_false.mpr fun b hb ↦
        Bool.eq_false_iff.mp ((List.pairwise_append.mp h).2.2 b hb a List.mem_cons_self)
    have hinsert : (s.insert a).toList = s.toList ++ [a] := by simp [toList_insert, hnew]
    rw [List.append_cons, ← hinsert] at h
    rw [insertAll_cons, ih h, hinsert, ← List.append_cons]

/-- The set of a list of different elements shows the list. -/
theorem toList_ofList_of_distinct {items : List α}
    (h : items.Pairwise fun earlier later ↦ (earlier == later) = false) :
    (ofList items).toList = items :=
  toList_insertAll_of_distinct (s := empty) h

/-- The set of the elements of a set in their order is the set. -/
@[simp] theorem ofList_toList (s : OrderedSet α) : ofList s.toList = s :=
  ext (toList_ofList_of_distinct s.distinct)

/-- A set contains exactly what equals one of its elements. -/
theorem contains_iff {s : OrderedSet α} {a : α} :
    s.contains a = true ↔ ∃ b ∈ s.toList, (b == a) = true :=
  List.any_eq_true

private theorem contains_insertAll_of_contains {s : OrderedSet α} {a : α} (h : s.contains a = true)
    (items : List α) : (s.insertAll items).contains a = true := by
  obtain ⟨added, -, heq⟩ := exists_toList_insertAll s items
  obtain ⟨b, hb, hba⟩ := contains_iff.mp h
  exact contains_iff.mpr ⟨b, heq ▸ List.mem_append_left added hb, hba⟩

private theorem contains_insert_self (s : OrderedSet α) {a : α} (h : (a == a) = true) :
    (s.insert a).contains a = true := by
  by_cases hc : s.contains a = true
  · unfold insert
    simp [hc]
  · exact contains_iff.mpr ⟨a, by rw [toList_insert, if_neg hc]; simp, h⟩

/-- Every element of a list that equals itself is in the set of the list. -/
theorem contains_insertAll_of_mem (s : OrderedSet α) {items : List α} {a : α} (ha : a ∈ items)
    (h : (a == a) = true) : (s.insertAll items).contains a = true := by
  induction items generalizing s with
  | nil => exact nomatch ha
  | cons b items ih =>
    rw [insertAll_cons]
    rcases List.mem_cons.mp ha with rfl | ha
    · exact contains_insertAll_of_contains (contains_insert_self s h) items
    · exact ih (s.insert b) ha

/-- After an insertion a set contains, besides what it contained, what equals the element. -/
theorem contains_insert [PartialEquivBEq α] (s : OrderedSet α) (b a : α) :
    (s.insert b).contains a = (s.contains a || b == a) := by
  rw [contains, toList_insert]
  split
  · next hpresent =>
    by_cases hba : (b == a) = true
    · obtain ⟨c, hc, hcb⟩ := contains_iff.mp hpresent
      have ha : s.contains a = true := contains_iff.mpr ⟨c, hc, BEq.trans hcb hba⟩
      rw [ha, Bool.true_or]
      exact ha
    · rw [Bool.eq_false_iff.mpr hba, Bool.or_false, contains]
  · simp [contains]

/-- Inserting a list adds what equals one of its elements. -/
theorem contains_insertAll [PartialEquivBEq α] (s : OrderedSet α) (items : List α) (a : α) :
    (s.insertAll items).contains a = (s.contains a || items.any (· == a)) := by
  induction items generalizing s with
  | nil => simp
  | cons b items ih => rw [insertAll_cons, ih, contains_insert, List.any_cons, Bool.or_assoc]

/-- The set of a list contains what equals one of its elements. -/
theorem contains_ofList [PartialEquivBEq α] (items : List α) (a : α) :
    (ofList items).contains a = items.any (· == a) :=
  contains_insertAll empty items a

private theorem toList_insertAll_map {β : Type} [BEq β] {f : α → β}
    (hf : ∀ a b : α, (f a == f b) = (a == b)) {s : OrderedSet α} {t : OrderedSet β}
    (h : t.toList = s.toList.map f) (items : List α) :
    (t.insertAll (items.map f)).toList = (s.insertAll items).toList.map f := by
  induction items generalizing s t with
  | nil => exact h
  | cons a items ih =>
    have hcontains : t.contains (f a) = s.contains a := by
      rw [contains, h, List.any_map]
      exact congrArg s.toList.any (funext fun b ↦ hf b a)
    apply ih
    rw [toList_insert, toList_insert, hcontains, h]
    split
    · rfl
    · rw [List.map_append, List.map_singleton]

/-- A function that keeps and reflects equality may be applied to a list or to its set. -/
theorem toList_ofList_map {β : Type} [BEq β] {f : α → β}
    (hf : ∀ a b : α, (f a == f b) = (a == b)) (items : List α) :
    (ofList (items.map f)).toList = (ofList items).toList.map f :=
  toList_insertAll_map (s := empty) (t := empty) hf rfl items

/-- If each of as many different elements equals one of a list, then a function that respects
equality has the same values on both, in whatever order. -/
theorem map_perm_of_forall_exists [EquivBEq α] {β : Type} {f : α → β}
    (hf : ∀ {a b : α}, (a == b) = true → f a = f b) {items others : List α}
    (hdistinct : items.Pairwise fun earlier later ↦ (earlier == later) = false)
    (hlength : items.length = others.length)
    (hpartner : ∀ a ∈ items, ∃ b ∈ others, (b == a) = true) :
    (items.map f).Perm (others.map f) := by
  induction items generalizing others with
  | nil => rw [List.eq_nil_of_length_eq_zero hlength.symm]
  | cons a items ih =>
    obtain ⟨b, hb, hba⟩ := hpartner a List.mem_cons_self
    obtain ⟨before, after, rfl⟩ := List.append_of_mem hb
    rw [List.pairwise_cons] at hdistinct
    have hrest : ∀ c ∈ items, ∃ d ∈ before ++ after, (d == c) = true := by
      intro c hc
      obtain ⟨d, hd, hdc⟩ := hpartner c (List.mem_cons_of_mem a hc)
      rcases List.mem_append.mp hd with hd | hd
      · exact ⟨d, List.mem_append_left after hd, hdc⟩
      · rcases List.mem_cons.mp hd with rfl | hd
        · have hac := BEq.trans (BEq.symm hba) hdc
          rw [hdistinct.1 c hc] at hac
          exact absurd hac Bool.false_ne_true
        · exact ⟨d, List.mem_append_right before hd, hdc⟩
    have hperm := ih hdistinct.2 (by simp at hlength ⊢; omega) hrest
    rw [List.map_cons, ← hf hba]
    exact (hperm.cons _).trans (List.perm_middle.map f).symm

/-- A function that respects equality has the same values on equal sets, in whatever order. -/
theorem map_perm_of_beq [EquivBEq α] {β : Type} {f : α → β}
    (hf : ∀ {a b : α}, (a == b) = true → f a = f b) {s t : OrderedSet α} (h : (s == t) = true) :
    (s.toList.map f).Perm (t.toList.map f) := by
  change (s.size == t.size && s.toList.all t.contains) = true at h
  rw [Bool.and_eq_true, beq_iff_eq, List.all_eq_true] at h
  exact map_perm_of_forall_exists hf s.distinct h.1 fun a ha ↦ contains_iff.mp (h.2 a ha)

/-- Equal sets contain the same. -/
theorem contains_congr [EquivBEq α] {s t : OrderedSet α} (h : (s == t) = true) (a : α) :
    s.contains a = t.contains a := by
  have hperm := map_perm_of_beq (f := (· == a)) (fun heq ↦ BEq.congr_left heq) h
  have hcontains (u : OrderedSet α) : u.contains a = (u.toList.map (· == a)).any id := by
    rw [contains, List.any_map]
    rfl
  rw [hcontains, hcontains, hperm.any_eq]

end OrderedSet

end Criteria
