import Criteria.Proofs.Insertion
import Criteria.Proofs.Canonical
import Criteria.Proofs.Settled
import Std.Data.HashMap.Lemmas

/-!
# Gathering the tests of a key

The operands of a junction can be merged in two steps: first the operands are gone through, keeping
a place for each new operand and gathering the values of each key under the key; then the places are
filled, taking out the values of one key after the other. Main statement: merging in two steps is
merging, and what it builds is the junction of the operands where the first test of each key has
become one test of the values of all, in the order of their first occurrence, and the later ones are
left out; a junction without two tests of one key stays as it is.
-/

namespace Criteria

variable {κ : Type} [CustomCondition κ]

/-! ## Gathered operands -/

/-- What takes a place among the new operands: an operand, or the test of a key. -/
inductive Slot (κ : Type) [CustomCondition κ] where
  /-- An operand that is kept. -/
  | keep (c : Cond κ)
  /-- A test that is built once all values on its key are known. -/
  | merge (key : RecordKey)

/-- The key of a test that is still to be built. -/
def Slot.key? : Slot κ → Option RecordKey
  | keep _ => none
  | merge key => some key

/-- What a place is filled with if the tests of all keys are given. -/
def Slot.filled (test : RecordKey → Cond κ) : Slot κ → Cond κ
  | .keep c => c
  | .merge key => test key

/-- The different values of the tests of a key, and how many tests there are. -/
structure TestGroup where
  /-- The values. -/
  values : OrderedSet Value
  /-- The number of tests. -/
  members : Nat

/-- The group without tests. -/
def TestGroup.empty : TestGroup := ⟨.empty, 0⟩

/-- Adds the values of a test to a group. -/
def TestGroup.add (group : TestGroup) (values : List Value) : TestGroup :=
  ⟨group.values.insertAll values, group.members + 1⟩

instance : Hashable RecordKey := ⟨fun key ↦ hash key.name⟩

/-- The places of the new operands, and the groups of tests by their keys. -/
structure Gathering (κ : Type) [CustomCondition κ] where
  /-- The places. -/
  slots : List (Slot κ)
  /-- The group of each key that was met. -/
  groups : Std.HashMap RecordKey TestGroup

namespace Junction

variable {j : Junction} {α : Type} {keep : Cond κ → α} {test : RecordKey → α}

/-! ## Places of the new operands -/

/-- What takes the place of an operand, given the operands before it. An operand that cannot be
merged is kept; of those of one key, the first one becomes the test of the key and the others go. -/
def placed? (j : Junction) (keep : Cond κ → α) (test : RecordKey → α) (before : List (Cond κ))
    (c : Cond κ) : Option α :=
  match j.mergeable? c with
  | none => some (keep c)
  | some (key, _) => if key ∈ j.mergeableKeys before then none else some (test key)

private theorem mergeableKeys_append (j : Junction) (xs ys : List (Cond κ)) :
    j.mergeableKeys (xs ++ ys) = j.mergeableKeys xs ++ j.mergeableKeys ys :=
  List.filterMap_append

private theorem mergeableKeys_concat_of_eq_none {c : Cond κ} (h : j.mergeable? c = none)
    (before : List (Cond κ)) : j.mergeableKeys (before ++ [c]) = j.mergeableKeys before := by
  rw [mergeableKeys_append, mergeableKeys_cons_of_eq_none h]
  exact List.append_nil _

private theorem mergeableKeys_concat_of_eq_some {c : Cond κ} {key : RecordKey} {values : List Value}
    (h : j.mergeable? c = some (key, values)) (before : List (Cond κ)) :
    j.mergeableKeys (before ++ [c]) = j.mergeableKeys before ++ [key] := by
  rw [mergeableKeys_append, mergeableKeys_cons_of_eq_some h]
  rfl

private theorem filterMap_placed {β : Type} {g : α → Option β} {f : RecordKey → β}
    (hkeep : ∀ c, j.mergeable? c = none → g (keep c) = none) {operands : List (Cond κ)}
    (htest : ∀ key ∈ j.mergeableKeys operands, g (test key) = some (f key))
    (before : List (Cond κ)) :
    (filterMapAfter (j.placed? keep test) before operands).filterMap g = (filterMapAfter
      firstOccurrence? (j.mergeableKeys before) (j.mergeableKeys operands)).map f := by
  induction operands generalizing before with
  | nil => rfl
  | cons c rest ih =>
    rw [filterMapAfter, List.filterMap_append, placed?]
    cases hc : j.mergeable? c with
    | none =>
      rw [mergeableKeys_cons_of_eq_none hc] at htest
      rw [ih htest, mergeableKeys_concat_of_eq_none hc, mergeableKeys_cons_of_eq_none hc]
      simp [hkeep c hc]
    | some found =>
      obtain ⟨key, values⟩ := found
      have hseen : (j.mergeableKeys before).any (· == key) = true ↔
          key ∈ j.mergeableKeys before := by simp
      rw [mergeableKeys_cons_of_eq_some hc, List.forall_mem_cons] at htest
      rw [ih htest.2, mergeableKeys_concat_of_eq_some hc, mergeableKeys_cons_of_eq_some hc,
        filterMapAfter, firstOccurrence?, List.map_append]
      simp only [hseen]
      split
      · rfl
      · simp [htest.1]

private theorem filter_placed {test : RecordKey → Cond κ} {operands : List (Cond κ)}
    (htest : ∀ key ∈ j.mergeableKeys operands, (j.mergeable? (test key)).isNone = false)
    (before : List (Cond κ)) :
    (filterMapAfter (j.placed? id test) before operands).filter (fun c ↦ (j.mergeable? c).isNone) =
      operands.filter fun c ↦ (j.mergeable? c).isNone := by
  induction operands generalizing before with
  | nil => rfl
  | cons c rest ih =>
    rw [filterMapAfter, List.filter_append, placed?]
    cases hc : j.mergeable? c with
    | none =>
      rw [mergeableKeys_cons_of_eq_none hc] at htest
      rw [ih htest]
      simp [hc]
    | some found =>
      obtain ⟨key, values⟩ := found
      rw [mergeableKeys_cons_of_eq_some hc, List.forall_mem_cons] at htest
      rw [ih htest.2, List.filter_cons_of_neg (by simp [hc])]
      dsimp only
      split
      · rfl
      · simp [htest.1]

private theorem mergeFrom_eq_filterMapAfter {valuesOn : RecordKey → List Value}
    {seen : List RecordKey}
    {before : List (Cond κ)} (h : ∀ key, key ∈ seen ↔ key ∈ j.mergeableKeys before)
    (operands : List (Cond κ)) : j.mergeFrom valuesOn seen operands =
      filterMapAfter (j.placed? id fun key ↦ j.merged key (valuesOn key)) before operands := by
  induction operands generalizing seen before with
  | nil => rfl
  | cons c rest ih =>
    rw [mergeFrom, filterMapAfter, placed?]
    cases hc : j.mergeable? c with
    | none => exact congrArg (c :: ·) (ih fun key ↦ by
        rw [mergeableKeys_concat_of_eq_none hc, h])
    | some found =>
      obtain ⟨key, values⟩ := found
      simp only [h]
      split
      · next hseen =>
        refine ih fun other ↦ ?_
        rw [mergeableKeys_concat_of_eq_some hc, List.mem_append, List.mem_singleton, h]
        exact ⟨.inl, fun hother ↦ hother.elim id (· ▸ hseen)⟩
      · refine congrArg (_ :: ·) (ih fun other ↦ ?_)
        rw [mergeableKeys_concat_of_eq_some hc, List.mem_append, List.mem_singleton, List.mem_cons,
          h, or_comm]

/-- Merged operands stand where the old ones stood. -/
theorem mergeOperands_eq (j : Junction) (operands : List (Cond κ)) : j.mergeOperands operands =
    filterMapAfter (j.placed? id fun key ↦ j.merged key (j.valuesOn key operands)) [] operands := by
  have hseen : ∀ key, key ∈ [] ↔ key ∈ j.mergeableKeys ([] : List (Cond κ)) := fun _ ↦ Iff.rfl
  exact mergeFrom_eq_filterMapAfter hseen operands

private theorem valuesOn_append (j : Junction) (key : RecordKey) (xs ys : List (Cond κ)) :
    j.valuesOn key (xs ++ ys) = j.valuesOn key xs ++ j.valuesOn key ys :=
  List.flatMap_append

private theorem valuesOn_eq_nil {key : RecordKey} {operands : List (Cond κ)}
    (h : key ∉ j.mergeableKeys operands) : j.valuesOn key operands = [] := by
  rw [List.eq_nil_iff_forall_not_mem]
  intro value hvalue
  obtain ⟨c, hc, values, hmergeable, -⟩ := mem_valuesOn_iff.mp hvalue
  exact h (List.mem_filterMap.mpr ⟨c, hc, by rw [hmergeable]; rfl⟩)

/-! ## Gathering -/

/-- Goes on to an operand: it gets a place of its own if it cannot be merged, and otherwise joins
the group of its key, which gets a place when it is opened. -/
def gather (j : Junction) (gathering : Gathering κ) (c : Cond κ) : Gathering κ :=
  match j.mergeable? c with
  | none => { gathering with slots := gathering.slots ++ [.keep c] }
  | some (key, values) =>
    { slots := if key ∈ gathering.groups then gathering.slots else gathering.slots ++ [.merge key]
      groups := gathering.groups.alter key fun group? ↦ some ((group?.getD .empty).add values) }

/-- Goes through all operands. -/
def gathered (j : Junction) (operands : List (Cond κ)) : Gathering κ :=
  operands.foldl j.gather ⟨[], ∅⟩

/-- All tests of a key among some operands as one group. -/
def group (j : Junction) (key : RecordKey) (operands : List (Cond κ)) : TestGroup :=
  ⟨.ofList (j.valuesOn key operands), (j.mergeableKeys operands).count key⟩

private theorem group_concat {c : Cond κ} {key : RecordKey} {values : List Value}
    (h : j.mergeable? c = some (key, values)) (other : RecordKey) (before : List (Cond κ)) :
    j.group other (before ++ [c]) =
      if key = other then (j.group other before).add values else j.group other before := by
  have hvalues : j.valuesOn other [c] = if key = other then values else [] := by
    rw [valuesOn, List.flatMap_singleton, h]
  rw [group, valuesOn_append, hvalues, mergeableKeys_concat_of_eq_some h, List.count_append,
    List.count_singleton, OrderedSet.ofList, OrderedSet.insertAll_append]
  split
  · next heq => simp [TestGroup.add, group, heq, OrderedSet.ofList]
  · next hne => simp [group, hne, OrderedSet.ofList]

private theorem group_concat_of_eq_none {c : Cond κ} (h : j.mergeable? c = none) (key : RecordKey)
    (before : List (Cond κ)) : j.group key (before ++ [c]) = j.group key before := by
  have hvalues : j.valuesOn key [c] = [] := by
    rw [valuesOn, List.flatMap_singleton, h]
  rw [group, valuesOn_append, hvalues, List.append_nil, mergeableKeys_concat_of_eq_none h, group]

private theorem group_eq_empty {key : RecordKey} {operands : List (Cond κ)}
    (h : key ∉ j.mergeableKeys operands) : j.group key operands = .empty := by
  rw [group, valuesOn_eq_nil h, List.count_eq_zero_of_not_mem h]
  rfl

/-- A state that is in step with the operands gone through: the places are theirs, and the group of
each key that they have is found under the key. -/
structure InStep (j : Junction) (operands : List (Cond κ)) (gathering : Gathering κ) : Prop where
  /-- The places are those of the operands. -/
  slots : gathering.slots = filterMapAfter (j.placed? .keep .merge) [] operands
  /-- The group of a key holds the tests of the key. -/
  groups : ∀ key, gathering.groups[key]? =
    if key ∈ j.mergeableKeys operands then some (j.group key operands) else none

private theorem InStep.mem_groups_iff {operands : List (Cond κ)} {gathering : Gathering κ}
    (h : j.InStep operands gathering) {key : RecordKey} :
    key ∈ gathering.groups ↔ key ∈ j.mergeableKeys operands := by
  rw [Std.HashMap.mem_iff_isSome_getElem?, h.groups]
  split
  · next hmem => exact iff_of_true rfl hmem
  · next hmem => exact iff_of_false Bool.false_ne_true hmem

/-- Going on to an operand keeps in step. -/
theorem InStep.gather {operands : List (Cond κ)} {gathering : Gathering κ}
    (h : j.InStep operands gathering) (c : Cond κ) :
    j.InStep (operands ++ [c]) (j.gather gathering c) := by
  rw [Junction.gather]
  cases hc : j.mergeable? c with
  | none =>
    constructor
    · rw [filterMapAfter_concat, ← h.slots, placed?, hc]
      rfl
    · intro key
      rw [mergeableKeys_concat_of_eq_none hc, group_concat_of_eq_none hc]
      exact h.groups key
  | some found =>
    obtain ⟨key, values⟩ := found
    constructor
    · rw [filterMapAfter_concat, ← h.slots, placed?, hc, List.nil_append]
      simp only [h.mem_groups_iff]
      split
      · exact (List.append_nil _).symm
      · rfl
    · intro other
      rw [Std.HashMap.getElem?_alter, group_concat hc, mergeableKeys_concat_of_eq_some hc]
      by_cases heq : key = other
      · subst heq
        rw [if_pos (beq_self_eq_true key), if_pos (List.mem_concat_self), if_pos rfl, h.groups]
        split
        · rfl
        · next hnew => rw [group_eq_empty hnew]; rfl
      · rw [if_neg (by simpa using heq), if_neg heq, h.groups]
        simp [Ne.symm heq]

/-- Going through the operands keeps in step with them. -/
theorem inStep_gathered (j : Junction) (operands : List (Cond κ)) :
    j.InStep operands (j.gathered operands) := by
  induction operands using List.reverseRecOn with
  | nil => exact ⟨rfl, fun key ↦ Std.HashMap.getElem?_empty⟩
  | append_singleton operands c ih =>
    rw [gathered, List.foldl_concat]
    exact ih.gather c

/-- There is no group of two tests exactly if all keys are different. -/
theorem InStep.all_groups_iff {operands : List (Cond κ)} {gathering : Gathering κ}
    (h : j.InStep operands gathering) :
    (gathering.groups.all fun _ group ↦ decide (group.members < 2)) = true ↔
      (j.mergeableKeys operands).Nodup := by
  rw [Std.HashMap.all_eq_true_iff_forall_mem_getElem, List.nodup_iff_count_le_one]
  have hgroup {key : RecordKey} (hmem : key ∈ gathering.groups) :
      gathering.groups[key] = j.group key operands := by
    rw [← Option.some_inj, ← Std.HashMap.getElem?_eq_some_getElem hmem, h.groups,
      if_pos (h.mem_groups_iff.mp hmem)]
  constructor
  · intro hall key
    by_cases hmem : key ∈ gathering.groups
    · have hfew := of_decide_eq_true (hall key hmem)
      rw [hgroup hmem] at hfew
      exact Nat.le_of_lt_succ hfew
    · rw [List.count_eq_zero_of_not_mem (mt h.mem_groups_iff.mpr hmem)]
      exact Nat.zero_le 1
  · intro hcount key hmem
    rw [hgroup hmem]
    exact decide_eq_true (Nat.lt_succ_of_le (hcount key))

/-! ## Filling the places -/

/-- Fills the places one after the other. The group of a key is taken out where the place of the key
is filled. -/
def fill (j : Junction) (groups : Std.HashMap RecordKey TestGroup) : List (Slot κ) → List (Cond κ)
  | [] => []
  | .keep c :: rest => c :: j.fill groups rest
  | .merge key :: rest =>
    let values := (groups[key]?.map TestGroup.values).getD .empty
    j.merged key values.toList :: j.fill (groups.erase key) rest

private theorem fill_eq_map {groups : Std.HashMap RecordKey TestGroup}
    {values : RecordKey → OrderedSet Value} {slots : List (Slot κ)}
    (hnodup : (slots.filterMap Slot.key?).Nodup)
    (h : ∀ key ∈ slots.filterMap Slot.key?, groups[key]?.map TestGroup.values = some (values key)) :
    j.fill groups slots = slots.map (Slot.filled fun key ↦ j.merged key (values key).toList) := by
  induction slots generalizing groups with
  | nil => rfl
  | cons slot rest ih =>
    cases slot with
    | keep c => exact congrArg (c :: ·) (ih hnodup h)
    | merge key =>
      have hkeys : (Slot.merge key :: rest).filterMap Slot.key? = key :: rest.filterMap Slot.key? :=
        rfl
      rw [hkeys, List.nodup_cons] at hnodup
      rw [hkeys, List.forall_mem_cons] at h
      rw [fill, h.1, List.map_cons, ih hnodup.2]
      · rfl
      · intro other hother
        have hne : (key == other) = false := beq_false_of_ne fun heq ↦ hnodup.1 (heq ▸ hother)
        rw [Std.HashMap.getElem?_erase, hne]
        exact h.2 other hother

private theorem filterMap_key?_slots (operands : List (Cond κ)) :
    (filterMapAfter (j.placed? .keep .merge) [] operands).filterMap Slot.key? =
      (OrderedSet.ofList (j.mergeableKeys operands)).toList := by
  have hkey : ∀ key ∈ j.mergeableKeys operands,
      Slot.key? (.merge key : Slot κ) = some (id key) := fun _ _ ↦ rfl
  rw [filterMap_placed (fun _ _ ↦ rfl) hkey, List.map_id, OrderedSet.toList_ofList]
  rfl

private theorem merged_toList_ofList (j : Junction) (key : RecordKey) (values : List Value) :
    (j.merged key (OrderedSet.ofList values).toList : Cond κ) = j.merged key values := by
  have hmemberOf : (Cond.memberOf key (OrderedSet.ofList values).toList : Cond κ) =
      .memberOf key values := by
    rw [Cond.memberOf, Cond.memberOf, OrderedSet.ofList_toList]
  cases j with
  | or => exact hmemberOf
  | and => exact congrArg Cond.not hmemberOf

/-- The operands merged in two steps. -/
def mergeGathered (j : Junction) (operands : List (Cond κ)) : List (Cond κ) :=
  j.fill (j.gathered operands).groups (j.gathered operands).slots

/-- The operands merged in two steps are those where the first test of each key has become one of
the values of all, and the later ones are left out. -/
theorem mergeGathered_eq (j : Junction) (operands : List (Cond κ)) : j.mergeGathered operands =
    filterMapAfter (j.placed? id fun key ↦ j.merged key (j.valuesOn key operands)) [] operands := by
  have h := j.inStep_gathered operands
  have hkeys : (j.gathered operands).slots.filterMap Slot.key? =
      (OrderedSet.ofList (j.mergeableKeys operands)).toList := by
    rw [h.slots, filterMap_key?_slots]
  have hnodup : ((j.gathered operands).slots.filterMap Slot.key?).Nodup := by
    rw [hkeys]
    exact (OrderedSet.distinct _).imp ne_of_beq_false
  have hvalues : ∀ key ∈ (j.gathered operands).slots.filterMap Slot.key?,
      (j.gathered operands).groups[key]?.map TestGroup.values =
        some (.ofList (j.valuesOn key operands)) := by
    intro key hkey
    rw [hkeys] at hkey
    rw [h.groups, if_pos ((OrderedSet.toList_ofList_sublist _).subset hkey)]
    rfl
  rw [mergeGathered, fill_eq_map hnodup hvalues, h.slots, map_filterMapAfter]
  congr 1
  funext before c
  rw [placed?, placed?]
  cases j.mergeable? c with
  | none => rfl
  | some found =>
    simp only [merged_toList_ofList]
    split <;> rfl

end Junction

namespace Cond

/-- Merges the operands of a junction in two steps, if some group has two tests. -/
def mergeInTwoSteps (c : Cond κ) : Cond κ :=
  match c with
  | compound j operands =>
    if (j.gathered operands).groups.all fun _ group ↦ decide (group.members < 2) then c
    else j.make (j.mergeGathered operands)
  | _ => c

/-- Merging in two steps is merging. -/
theorem mergeInTwoSteps_eq (c : Cond κ) : c.mergeInTwoSteps = c.mergeOperands := by
  cases c with
  | compound j operands =>
    rw [mergeInTwoSteps, mergeOperands, j.mergeGathered_eq, j.mergeOperands_eq]
    simp only [(j.inStep_gathered operands).all_groups_iff]
  | fixed truth => rfl
  | test key t => rfl
  | custom leaf => rfl
  | negation operand => rfl

/-! ## The values of a merged test -/

private theorem IsNormal.membership?_ne_nil {c : Cond κ} (h : c.IsNormal) {key : RecordKey}
    {values : List Value} (hc : c.membership? = some (key, values)) : values ≠ [] := by
  rintro rfl
  cases c with
  | test k t =>
    cases t with
    | oneOf members =>
      have hnil : members.toList = [] := (Prod.ext_iff.mp (Option.some.inj hc)).2
      have hseveral := (h.2 members rfl).1
      rw [hnil] at hseveral
      cases hseveral
    | _ => cases hc
  | _ => cases hc

private theorem membership?_memberOf {values : List Value} (h : values ≠ []) (key : RecordKey) :
    ∃ t, (memberOf key values : Cond κ) = test key t ∧
      (test key t : Cond κ).membership? = some (key, firstOccurrences values) := by
  rw [← OrderedSet.toList_ofList]
  refine memberOf_cases key values (fun hnone ↦ ?_) (fun v hv ↦ ⟨_, rfl, ?_⟩) fun _ ↦ ⟨_, rfl, rfl⟩
  · obtain ⟨v, hv⟩ := List.exists_mem_of_ne_nil values h
    have hcontains : (OrderedSet.ofList values).contains v = true :=
      OrderedSet.contains_insertAll_of_mem .empty hv (beq_self_eq_true v)
    rw [OrderedSet.contains, hnone] at hcontains
    cases hcontains
  · rw [hv]
    rfl

end Cond

namespace Junction

variable {j : Junction}

/-- The values of a merged test are the different ones of those given, in the order of their first
occurrence. -/
theorem mergeable?_merged {values : List Value} (h : values ≠ []) (key : RecordKey) :
    j.mergeable? (j.merged key values : Cond κ) = some (key, firstOccurrences values) := by
  obtain ⟨t, htest, hvalues⟩ := Cond.membership?_memberOf (κ := κ) h key
  cases j with
  | or => rw [merged, htest, mergeable?, hvalues]
  | and =>
    rw [merged, htest]
    exact hvalues

private theorem valuesOn_ne_nil {operands : List (Cond κ)}
    (hoperands : ∀ operand ∈ operands, operand.Everywhere Cond.IsNormal) {key : RecordKey}
    (hkey : key ∈ j.mergeableKeys operands) : j.valuesOn key operands ≠ [] := by
  obtain ⟨c, hc, hfound⟩ := List.mem_filterMap.mp hkey
  obtain ⟨⟨_, values⟩, hmergeable, rfl⟩ := Option.map_eq_some_iff.mp hfound
  have hvalues : values ≠ [] := by
    cases j with
    | or => exact (hoperands c hc).self.membership?_ne_nil hmergeable
    | and =>
      obtain ⟨operand, rfl, hmembership⟩ := exists_negation_of_mergeable?_and hmergeable
      exact (Cond.everywhere_negation.mp (hoperands _ hc)).2.self.membership?_ne_nil hmembership
  exact fun hnil ↦ hvalues (List.subset_nil.mp (hnil ▸ subset_valuesOn hc hmergeable))

end Junction

namespace Cond

/-- If two operands of a junction can be merged, what is built is the junction of the operands where
the first test of each key has become one test and the later ones are left out. All that cannot be
merged is kept in its order; and there is one test for each key, with the values of all tests of the
key, without repetition and in the order of their first occurrence. If no two operands can be
merged, the junction stays as it is. Merging in two steps, with places for the new operands and
groups of tests that are found by their keys, comes to the same. -/
theorem mergeOperands_gathers {j : Junction} {operands : List (Cond κ)}
    (h : (compound j operands).Reachable) :
    ((∃ key, 2 ≤ (j.mergeableKeys operands).count key) → ∃ merged : List (Cond κ),
      (compound j operands).mergeOperands = j.make merged ∧
      merged = filterMapAfter
        (j.placed? id fun key ↦ j.merged key (j.valuesOn key operands)) [] operands ∧
      merged.filter (fun c ↦ (j.mergeable? c).isNone) =
        operands.filter (fun c ↦ (j.mergeable? c).isNone) ∧
      merged.filterMap j.mergeable? = (firstOccurrences (j.mergeableKeys operands)).map fun key ↦
        (key, firstOccurrences (j.valuesOn key operands))) ∧
    ((∀ key, (j.mergeableKeys operands).count key < 2) →
      (compound j operands).mergeOperands = compound j operands) ∧
    (compound j operands).mergeInTwoSteps = (compound j operands).mergeOperands := by
  have hnormal := (everywhere_compound.mp h.everywhere_isNormal).2
  have htest : ∀ key ∈ j.mergeableKeys operands,
      j.mergeable? (j.merged key (j.valuesOn key operands) : Cond κ) =
        some (key, firstOccurrences (j.valuesOn key operands)) := fun key hkey ↦
    Junction.mergeable?_merged (Junction.valuesOn_ne_nil hnormal hkey) key
  refine ⟨fun hmany ↦ ⟨_, ?_, rfl, ?_, ?_⟩, fun hfew ↦ ?_, mergeInTwoSteps_eq _⟩
  · obtain ⟨key, hcount⟩ := hmany
    have hrepeated : ¬(j.mergeableKeys operands).Nodup := by
      intro hnodup
      exact Nat.not_succ_le_self 1 (hcount.trans (List.nodup_iff_count_le_one.mp hnodup key))
    rw [mergeOperands, if_neg hrepeated, j.mergeOperands_eq]
  · apply Junction.filter_placed
    intro key hkey
    rw [htest key hkey]
    rfl
  · exact Junction.filterMap_placed (fun _ hc ↦ hc) htest []
  · rw [mergeOperands, if_pos]
    exact List.nodup_iff_count_le_one.mpr fun key ↦ Nat.le_of_lt_succ (hfew key)

/-- The tests of two keys stand between each other and between other operands, the numbers are
spelled in several ways, and one of the texts is repeated. In a disjunction the tests are gathered,
and in a conjunction their negations. -/
theorem mergeOperands_gathers_interleaved : ∃ given : List (Cond Tagged),
    given = [.test ⟨"n", rfl⟩ (.equal (.number ⟨false, 5, 0⟩)), .custom ⟨"t"⟩,
      .memberOf ⟨"s", rfl⟩ [.string "y", .string "x"], .test ⟨"b", rfl⟩ .isTrue,
      .memberOf ⟨"n", rfl⟩ [.number ⟨false, 70, 1⟩, .number ⟨false, 50, 1⟩],
      .test ⟨"s", rfl⟩ (.equal (.string "x")), .test ⟨"n", rfl⟩ (.equal (.number ⟨false, 7, 0⟩))] ∧
    ∀ j operands, (j, operands) ∈ [(Junction.or, given), (.and, given.map Cond.not)] →
      ∃ merged : List (Cond Tagged), (j.make operands).mergeOperands = j.make merged ∧
        (merged.filterMap j.mergeable?).map (fun (key, values) ↦
          (key.name, values.map Value.toDiagnostic)) =
            [("n", ["5", "7.0"]), ("s", ["\"y\"", "\"x\""])] ∧
        (j.make operands).mergeInTwoSteps = (j.make operands).mergeOperands := by
  have hitem (key : RecordKey) {t : Test} (h : t.kind ≠ .oneOf) :
      (Cond.test key t : Cond Tagged).Reachable := .test key h
  refine ⟨_, rfl, fun j operands hmem ↦ ?_⟩
  suffices (∀ c ∈ operands, c.Reachable) ∧ 2 ≤ (j.flatten operands).toList.length ∧
      j.isDecided (j.flatten operands) = false ∧
      2 ≤ (j.mergeableKeys (j.flatten operands).toList).count ⟨"n", rfl⟩ ∧
      ((firstOccurrences (j.mergeableKeys (j.flatten operands).toList)).map fun key ↦
        (key.name, (firstOccurrences (j.valuesOn key (j.flatten operands).toList)).map
          Value.toDiagnostic)) = [("n", ["5", "7.0"]), ("s", ["\"y\"", "\"x\""])] by
    obtain ⟨hoperands, hseveral, hundecided, hmany, htexts⟩ := this
    have hcompound := j.make_eq_compound hseveral hundecided
    have hreachable := hcompound ▸ Reachable.make j hoperands
    obtain ⟨hmerged, -, htwoSteps⟩ := mergeOperands_gathers hreachable
    obtain ⟨merged, hmake, -, -, hvalues⟩ := hmerged ⟨_, hmany⟩
    rw [hcompound]
    refine ⟨merged, hmake, ?_, htwoSteps⟩
    rw [hvalues, List.map_map]
    exact htexts
  simp only [List.mem_cons, List.not_mem_nil, or_false, Prod.mk.injEq] at hmem
  obtain ⟨rfl, rfl⟩ | ⟨rfl, rfl⟩ := hmem
  · refine ⟨?_, by decide +kernel, by decide +kernel, by decide +kernel, by decide +kernel⟩
    simp only [List.forall_mem_cons]
    exact ⟨hitem _ (by decide), .custom _, .memberOf _ _, hitem _ (by decide), .memberOf _ _,
      hitem _ (by decide), hitem _ (by decide), List.forall_mem_nil _⟩
  · refine ⟨?_, by decide +kernel, by decide +kernel, by decide +kernel, by decide +kernel⟩
    simp only [List.forall_mem_map, List.forall_mem_cons]
    exact ⟨.not (hitem _ (by decide)), .not (.custom _), .not (.memberOf _ _),
      .not (hitem _ (by decide)), .not (.memberOf _ _), .not (hitem _ (by decide)),
      .not (hitem _ (by decide)), List.forall_mem_nil _⟩

end Cond

end Criteria
