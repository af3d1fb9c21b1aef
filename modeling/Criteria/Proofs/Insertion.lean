import Mathlib.Data.Set.Card
import Criteria.Proofs.Lookup

/-!
# Sequences of insertions

A set is filled by inserting elements one by one or as a list, or is collected anew from a list.
What it then shows depends only on the elements inserted, in their order. Main statement: after any
sequence of insertions, the set lists the elements that equal no earlier one, and everything else
that is asked of it, or of a set with an index, is answered as these elements say.
-/

namespace Criteria

/-! ## First occurrences -/

section Occurrences

variable {α β : Type}

/-- What a function makes of the items of a list, each looked at together with the items before it.
The items before the list are given. -/
def filterMapAfter (f : List α → α → Option β) (before : List α) : List α → List β
  | [] => []
  | a :: rest => (f before a).toList ++ filterMapAfter f (before ++ [a]) rest

/-- An item at the end is looked at with all others before it. -/
theorem filterMapAfter_concat (f : List α → α → Option β) (before items : List α) (a : α) :
    filterMapAfter f before (items ++ [a]) =
      filterMapAfter f before items ++ (f (before ++ items) a).toList := by
  induction items generalizing before with
  | nil => simp [filterMapAfter]
  | cons b items ih =>
    rw [List.cons_append, filterMapAfter, ih, filterMapAfter, List.append_assoc, List.append_assoc]
    rfl

/-- What is made of the items can be changed at once or afterwards. -/
theorem map_filterMapAfter {γ : Type} (g : β → γ) (f : List α → α → Option β)
    (before items : List α) : (filterMapAfter f before items).map g =
      filterMapAfter (fun before a ↦ (f before a).map g) before items := by
  induction items generalizing before with
  | nil => rfl
  | cons a items ih => rw [filterMapAfter, filterMapAfter, List.map_append, ih, Option.toList_map]

variable [BEq α]

/-- The item, if it equals none of those before it. -/
def firstOccurrence? (before : List α) (a : α) : Option α :=
  if before.any (· == a) then none else some a

/-- The items of a list that equal no item before them. -/
def firstOccurrences (items : List α) : List α := filterMapAfter firstOccurrence? [] items

private theorem OrderedSet.toList_insertAll_eq [EquivBEq α] {s : OrderedSet α} {before : List α}
    (h : ∀ a, s.contains a = before.any (· == a)) (items : List α) :
    (s.insertAll items).toList = s.toList ++ filterMapAfter firstOccurrence? before items := by
  induction items generalizing s before with
  | nil => exact (List.append_nil _).symm
  | cons a items ih =>
    have hinsert : ∀ b, (s.insert a).contains b = (before ++ [a]).any (· == b) := by
      intro b
      rw [contains_insert, h, List.any_append, List.any_cons, List.any_nil, Bool.or_false]
    rw [insertAll_cons, ih hinsert, toList_insert, h, filterMapAfter, firstOccurrence?]
    split
    · rfl
    · rw [Option.toList_some, List.append_assoc]

/-- The set of a list lists the items that equal no item before them. -/
theorem OrderedSet.toList_ofList [EquivBEq α] (items : List α) :
    (ofList items).toList = firstOccurrences items := by
  have hempty : ∀ a : α, empty.contains a = [].any (· == a) := fun _ ↦ rfl
  exact toList_insertAll_eq hempty items

end Occurrences

/-! ## Steps -/

/-- A step in which a set is filled. -/
inductive Insertion (α : Type) where
  /-- An element is inserted. -/
  | insert (a : α)
  /-- The elements of a list are inserted. -/
  | extend (items : List α)
  /-- The set is collected anew from a list. -/
  | collect (items : List α)

namespace Insertion

variable {α : Type}

/-- The elements that are inserted after a step, in order, if the given ones were before. -/
def inserted (earlier : List α) : Insertion α → List α
  | insert a => earlier ++ [a]
  | extend items => earlier ++ items
  | collect items => items

/-- The elements that a sequence of steps inserts into a set without elements, in order. -/
def insertedBy (steps : List (Insertion α)) : List α := steps.foldl inserted []

end Insertion

namespace OrderedSet

variable {α : Type} [BEq α]

/-- Takes a step. -/
def step (s : OrderedSet α) : Insertion α → OrderedSet α
  | .insert a => (s.tryInsert a).2
  | .extend items => s.insertAll items
  | .collect items => ofList items

/-- Takes the steps of a sequence, starting without elements. -/
def run (steps : List (Insertion α)) : OrderedSet α := steps.foldl step empty

/-- A step leads from the set of the elements inserted before to the set of those inserted after. -/
theorem step_ofList (earlier : List α) (insertion : Insertion α) :
    (ofList earlier).step insertion = ofList (insertion.inserted earlier) := by
  cases insertion with
  | insert a => exact (insertAll_append empty earlier [a]).symm
  | extend items => exact (insertAll_append empty earlier items).symm
  | collect items => rfl

/-- A sequence of steps leads to the set of the elements inserted. -/
theorem run_eq_ofList (steps : List (Insertion α)) :
    run steps = ofList (Insertion.insertedBy steps) := by
  suffices ∀ earlier, steps.foldl step (ofList earlier) =
      ofList (steps.foldl Insertion.inserted earlier) from this []
  induction steps with
  | nil => exact fun _ ↦ rfl
  | cons insertion steps ih =>
    intro earlier
    rw [List.foldl_cons, List.foldl_cons, step_ofList, ih]

variable [EquivBEq α]

/-- A set has as many elements as there are classes of equal items in the list that it is the set
of. A class is the answer to the question of what equals one of its items. -/
theorem size_ofList (items : List α) :
    (ofList items).size = {cls : α → Bool | ∃ a ∈ items, cls = (a == ·)}.ncard := by
  have hclasses : {cls : α → Bool | ∃ a ∈ items, cls = (a == ·)} =
      {cls | cls ∈ (ofList items).toList.map fun a b ↦ a == b} := by
    ext cls
    rw [Set.mem_ofPred_eq, Set.mem_ofPred_eq, List.mem_map]
    constructor
    · rintro ⟨a, ha, rfl⟩
      have hcontains : (ofList items).contains a = true :=
        contains_insertAll_of_mem empty ha (beq_self_eq_true a)
      obtain ⟨b, hb, hba⟩ := contains_iff.mp hcontains
      exact ⟨b, hb, beq_eq_beq_iff.mpr hba⟩
    · rintro ⟨a, ha, rfl⟩
      exact ⟨a, (toList_ofList_sublist items).subset ha, rfl⟩
  classical
  rw [hclasses, ← List.coe_toFinset, Set.ncard_coe_finset,
    List.toFinset_card_of_nodup (nodup_map_beq _), List.length_map, size]

/-- Sets are equal exactly if each contains the elements of the other. -/
theorem beq_iff_forall_contains {s t : OrderedSet α} :
    (s == t) = true ↔
      (∀ a ∈ s.toList, t.contains a = true) ∧ ∀ b ∈ t.toList, s.contains b = true := by
  rw [beq_iff]
  constructor
  · rintro ⟨hsize, hst⟩
    refine ⟨hst, fun b hb ↦ ?_⟩
    rw [contains_congr (beq_iff.mpr ⟨hsize, hst⟩)]
    exact contains_iff.mpr ⟨b, hb, beq_self_eq_true b⟩
  · rintro ⟨hst, hts⟩
    exact ⟨Nat.le_antisymm (size_le_of_forall_contains hst) (size_le_of_forall_contains hts), hst⟩

end OrderedSet

/-! ## Steps of a set with an index -/

namespace Indexed

variable {α : Type} {digest : α → UInt64} [BEq α]

/-- Inserts an item, and tells whether it is new to the set. -/
def tryInsert (s : Indexed digest) (a : α) : Bool × Indexed digest := (!s.contains a, s.insert a)

/-- Takes a step. -/
def step (s : Indexed digest) : Insertion α → Indexed digest
  | .insert a => (s.tryInsert a).2
  | .extend items => s.insertAll items
  | .collect items => ofList digest items

/-- Takes the steps of a sequence, starting without items. -/
def run (digest : α → UInt64) (steps : List (Insertion α)) : Indexed digest :=
  steps.foldl step empty

/-- Whether two sets have as many items and each item of the one is found in the other. -/
def same (s t : Indexed digest) : Bool :=
  s.items.length == t.items.length && s.items.all t.contains

variable (hdigest : ∀ {a b : α}, (a == b) = true → digest a = digest b)

include hdigest

/-- A step keeps the items in step with those of a set. -/
theorem items_step {s : Indexed digest} {t : OrderedSet α} (h : s.items = t.toList)
    (insertion : Insertion α) : (s.step insertion).items = (t.step insertion).toList := by
  cases insertion with
  | insert a => exact items_insert hdigest h a
  | extend items => exact items_insertAll hdigest h items
  | collect items => exact items_ofList hdigest items

/-- A sequence of steps keeps the items in step with those of a set. -/
theorem items_run (steps : List (Insertion α)) :
    (run digest steps).items = (OrderedSet.run steps).toList := by
  suffices ∀ (s : Indexed digest) (t : OrderedSet α), s.items = t.toList →
      (steps.foldl step s).items = (steps.foldl OrderedSet.step t).toList from this empty .empty rfl
  induction steps with
  | nil => exact fun _ _ h ↦ h
  | cons insertion steps ih => exact fun _ _ h ↦ ih _ _ (items_step hdigest h insertion)

private theorem contains_run (steps : List (Insertion α)) (a : α) :
    (run digest steps).contains a = (OrderedSet.run steps).contains a := by
  rw [contains_eq hdigest, items_run hdigest]
  rfl

end Indexed

namespace OrderedSet

variable {α : Type} [BEq α] [EquivBEq α] {digest : α → UInt64}

/-- After any sequence of insertions into a set without elements, the set lists the elements that
equal no earlier one. An element is new to it, or contained in it, depending on whether an equal one
was inserted; its size is the number of classes of equal elements; and it equals another such set
exactly if each contains the elements of the other. With an index that elements are looked up in by
a digest that equal ones share, the same elements are listed and all answers are the same. -/
theorem run_insertionOrder (hdigest : ∀ {a b : α}, (a == b) = true → digest a = digest b)
    (steps : List (Insertion α)) :
    let s := run steps
    let inserted := Insertion.insertedBy steps
    s.toList = firstOccurrences inserted ∧
    (∀ a, (s.tryInsert a).1 = true ↔ ∀ b ∈ inserted, (b == a) = false) ∧
    (∀ a, s.contains a = true ↔ ∃ b ∈ inserted, (b == a) = true) ∧
    s.size = {cls : α → Bool | ∃ a ∈ inserted, cls = (a == ·)}.ncard ∧
    (∀ others, (s == run others) = true ↔
      (∀ a ∈ s.toList, (run others).contains a = true) ∧
        ∀ b ∈ (run others).toList, s.contains b = true) ∧
    let indexed := Indexed.run digest steps
    indexed.items = s.toList ∧
      (∀ a, indexed.contains a = s.contains a ∧ (indexed.tryInsert a).1 = (s.tryInsert a).1) ∧
      ∀ others, indexed.same (Indexed.run digest others) = (s == run others) := by
  have hitems (steps : List (Insertion α)) := Indexed.items_run hdigest steps
  have hcontains (steps : List (Insertion α)) := Indexed.contains_run hdigest steps
  intro s inserted
  have hs : s = ofList inserted := run_eq_ofList steps
  refine ⟨?_, fun a ↦ ?_, fun a ↦ ?_, ?_, fun _ ↦ beq_iff_forall_contains, hitems steps, ?_, ?_⟩
  · rw [hs, toList_ofList]
  · simp [tryInsert, hs, contains_ofList]
  · rw [hs, contains_ofList, List.any_eq_true]
  · rw [hs, size_ofList]
  · intro a
    rw [Indexed.tryInsert, tryInsert, hcontains steps]
    exact ⟨rfl, rfl⟩
  · intro others
    rw [Indexed.same, hitems, hitems, funext (hcontains others)]
    rfl

/-- Numbers are inserted in several spellings and texts repeatedly, one by one and in lists. The
digest only counts tokens, so that values of all kinds share it. -/
theorem run_insertionOrder_respelled : ∃ (digest : Value → UInt64) (s t : List (Insertion Value)),
    digest = Value.description.digest (fun tokens ↦ .ofNat tokens.length) ∧
    s = [.insert (.string "w"), .collect [.number ⟨false, 5, 0⟩, .string "x"],
      .insert (.number ⟨false, 50, 1⟩),
      .extend [.string "y", .number ⟨false, 500, 2⟩, .string "x"]] ∧
    t = [.extend [.string "y", .string "x"], .insert (.number ⟨false, 50, 1⟩)] ∧
    (run s).toList = [.number ⟨false, 5, 0⟩, .string "x", .string "y"] ∧
    ((run s).tryInsert (.string "w")).1 = true ∧
    (run s).contains (.number ⟨false, 500, 2⟩) = true ∧
    (run s == run t) = true ∧
    (Indexed.run digest s).items = (run s).toList ∧
    (Indexed.run digest s).same (Indexed.run digest t) = (run s == run t) := by
  refine ⟨_, _, _, rfl, rfl, rfl, ?_⟩
  obtain ⟨hlist, hnew, hcontains, -, hequal, hitems, -, hsame⟩ :=
    run_insertionOrder (Value.description.digest_eq fun tokens ↦ .ofNat tokens.length)
      [.insert (.string "w"), .collect [.number ⟨false, 5, 0⟩, .string "x"],
        .insert (.number ⟨false, 50, 1⟩),
        .extend [.string "y", .number ⟨false, 500, 2⟩, .string "x"]]
  refine ⟨hlist.trans rfl, (hnew _).mpr ?_, (hcontains _).mpr ?_, (hequal _).mpr ?_, hitems,
    hsame _⟩
  · decide +kernel
  · decide +kernel
  · decide +kernel

end OrderedSet

end Criteria
