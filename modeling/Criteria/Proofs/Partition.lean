import Mathlib.Data.List.TakeWhile
import Criteria.Cond.Text
import Criteria.Proofs.Insertion
import Criteria.Proofs.Unshared

/-!
# Parting operands

A shared branch can be pulled out step by step: the branches of the operands are counted under their
digests, the first of those that are counted most often is taken, and the operands are gone through
once, keeping those without it, leaving the remainders of the others, and noting where the first of
these stood. Two steps could fail: as many operands as were counted are taken away from all, and the
new operand is inserted at the place that was noted. Main statement: for a condition that can be
built neither fails, what is counted are the operands that leave a remainder, and the steps pull out
the branch that is shared most.
-/

namespace Criteria

/-! ## The first of the items that count most -/

section FirstMost

variable {α : Type}

/-- An item of a list for which the items before it count less and those after it no more. -/
def IsFirstMost (count : α → Nat) (items : List α) (most : α) : Prop :=
  ∃ before after, items = before ++ most :: after ∧
    (∀ a ∈ before, count a < count most) ∧ ∀ a ∈ after, count a ≤ count most

namespace IsFirstMost

variable {count : α → Nat} {items : List α} {most a b : α}

/-- No item counts more. -/
theorem count_le (h : IsFirstMost count items most) (ha : a ∈ items) : count a ≤ count most := by
  obtain ⟨before, after, rfl, hbefore, hafter⟩ := h
  rcases List.mem_append.mp ha with ha | ha
  · exact Nat.le_of_lt (hbefore a ha)
  · rcases List.mem_cons.mp ha with rfl | ha
    · exact Nat.le_refl _
    · exact hafter a ha

private theorem cons (h : IsFirstMost count items most) (ha : count a < count most) :
    IsFirstMost count (a :: items) most := by
  obtain ⟨before, after, rfl, hbefore, hafter⟩ := h
  exact ⟨a :: before, after, rfl, List.forall_mem_cons.mpr ⟨ha, hbefore⟩, hafter⟩

private theorem cons_cons (h : IsFirstMost count (a :: items) most) (hb : count b ≤ count a) :
    IsFirstMost count (a :: b :: items) most := by
  obtain ⟨before, after, heq, hbefore, hafter⟩ := h
  cases before with
  | nil =>
    cases heq
    exact ⟨[], b :: items, rfl, nofun, List.forall_mem_cons.mpr ⟨hb, hafter⟩⟩
  | cons c before =>
    cases heq
    rw [List.forall_mem_cons] at hbefore
    refine ⟨a :: b :: before, after, rfl, ?_, hafter⟩
    simp only [List.forall_mem_cons]
    exact ⟨hbefore.1, Nat.lt_of_le_of_lt hb hbefore.1, hbefore.2⟩

end IsFirstMost

private theorem exists_split_of_filterMapAfter {β : Type} {f : List α → α → Option β}
    {earlier items : List α} {before after : List β} {b : β}
    (h : filterMapAfter f earlier items = before ++ b :: after) :
    ∃ first a rest, items = first ++ a :: rest ∧ f (earlier ++ first) a = some b ∧
      filterMapAfter f earlier first = before := by
  induction items generalizing earlier before with
  | nil => simp [filterMapAfter] at h
  | cons a items ih =>
    rw [filterMapAfter] at h
    cases ha : f earlier a with
    | none =>
      rw [ha] at h
      obtain ⟨first, c, rest, rfl, hc, hfirst⟩ := ih h
      refine ⟨a :: first, c, rest, rfl, by simpa using hc, ?_⟩
      rw [filterMapAfter, ha, hfirst]
      rfl
    | some d =>
      rw [ha, Option.toList_some, List.singleton_append] at h
      cases before with
      | nil =>
        obtain ⟨rfl, -⟩ := List.cons.inj h
        exact ⟨[], a, items, rfl, by rwa [List.append_nil], rfl⟩
      | cons e before =>
        obtain ⟨rfl, htail⟩ := List.cons.inj h
        obtain ⟨first, c, rest, rfl, hc, hfirst⟩ := ih htail
        refine ⟨a :: first, c, rest, rfl, by simpa using hc, ?_⟩
        rw [filterMapAfter, ha, hfirst]
        rfl

variable [BEq α]

private theorem exists_split_of_firstOccurrences {items before after : List α} {a : α}
    (h : firstOccurrences items = before ++ a :: after) :
    ∃ earlier later, items = earlier ++ a :: later ∧ firstOccurrences earlier = before := by
  obtain ⟨earlier, b, later, rfl, hb, hearlier⟩ := exists_split_of_filterMapAfter h
  rw [firstOccurrence?, Option.ite_none_left_eq_some] at hb
  obtain rfl := Option.some.inj hb.2
  exact ⟨earlier, later, rfl, hearlier⟩

variable [EquivBEq α]

private theorem exists_mem_firstOccurrences_beq {items : List α} {a : α} (ha : a ∈ items) :
    ∃ b ∈ firstOccurrences items, (b == a) = true := by
  rw [← OrderedSet.toList_ofList]
  exact OrderedSet.contains_iff.mp
    (OrderedSet.contains_insertAll_of_mem .empty ha (beq_self_eq_true a))

/-- If equal items count alike, the first of the different items that count most is the first of all
items that do. -/
theorem IsFirstMost.of_firstOccurrences {count : α → Nat} {items : List α} {most : α}
    (hcount : ∀ {a b : α}, (a == b) = true → count a = count b)
    (h : IsFirstMost count (firstOccurrences items) most) : IsFirstMost count items most := by
  have hle : ∀ a ∈ items, count a ≤ count most := by
    intro a ha
    obtain ⟨b, hb, hba⟩ := exists_mem_firstOccurrences_beq ha
    exact hcount hba ▸ h.count_le hb
  obtain ⟨before, after, hsplit, hbefore, -⟩ := h
  obtain ⟨earlier, later, rfl, rfl⟩ := exists_split_of_firstOccurrences hsplit
  refine ⟨earlier, later, rfl, fun a ha ↦ ?_, fun a ha ↦ ?_⟩
  · obtain ⟨b, hb, hba⟩ := exists_mem_firstOccurrences_beq ha
    exact hcount hba ▸ hbefore b hb
  · exact hle a (List.mem_append_right _ (List.mem_cons_of_mem _ ha))

private theorem countP_beq_le_one {items : List α}
    (h : items.Pairwise fun earlier later ↦ (earlier == later) = false) (a : α) :
    items.countP (· == a) ≤ 1 := by
  induction items with
  | nil => exact Nat.zero_le 1
  | cons b items ih =>
    rw [List.pairwise_cons] at h
    by_cases hba : (b == a) = true
    · have hnone : items.countP (· == a) = 0 := by
        rw [List.countP_eq_zero]
        intro c hc hca
        have hbc := BEq.trans hba (BEq.symm hca)
        rw [h.1 c hc] at hbc
        exact Bool.false_ne_true hbc
      rw [List.countP_cons_of_pos (p := (· == a)) hba, hnone]
    · rw [List.countP_cons_of_neg (p := (· == a)) hba]
      exact ih h.2

end FirstMost

variable {κ : Type} [CustomCondition κ]

namespace Junction

variable {j : Junction} {operands : List (Cond κ)} {common : Cond κ}

/-! ## Counting branches -/

private theorem isFirstMost_of_foldl_better? {count : Cond κ → Nat} {best most : Cond κ}
    {candidates : List (Cond κ)} (h : candidates.foldl (better? count) (some best) = some most) :
    IsFirstMost count (best :: candidates) most := by
  induction candidates generalizing best with
  | nil =>
    cases h
    exact ⟨[], [], rfl, nofun, nofun⟩
  | cons c candidates ih =>
    rw [List.foldl_cons, better?] at h
    split at h
    · next hlt =>
      have hmost := ih h
      exact hmost.cons (Nat.lt_of_lt_of_le hlt (hmost.count_le List.mem_cons_self))
    · next hle => exact (ih h).cons_cons (Nat.le_of_not_lt hle)

/-- The condition that is found is the first of those that count most. -/
theorem isFirstMost_of_mostCounted? {count : Cond κ → Nat} {candidates : List (Cond κ)}
    {most : Cond κ} (h : mostCounted? count candidates = some most) :
    IsFirstMost count candidates most := by
  induction candidates with
  | nil => cases h
  | cons c candidates ih =>
    rw [mostCounted?, List.foldl_cons, better?] at h
    split at h
    · exact isFirstMost_of_foldl_better? h
    · next hfew =>
      have htwo := (mem_and_two_le_of_mostCounted? h).2
      exact (ih h).cons (by omega)

/-- The best condition so far with its count, after a look at one more. -/
def ahead? (count : Cond κ → Nat) (best? : Option (Cond κ × Nat)) (c : Cond κ) :
    Option (Cond κ × Nat) :=
  if 2 ≤ count c ∧ best?.all (fun best ↦ decide (best.2 < count c)) then some (c, count c)
  else best?

private theorem ahead?_map {count : Cond κ → Nat} {best? : Option (Cond κ)}
    (hbest : ∀ best, best? = some best → 2 ≤ count best) (c : Cond κ) :
    ahead? count (best?.map fun best ↦ (best, count best)) c =
      (better? count best? c).map fun best ↦ (best, count best) := by
  cases best? with
  | none =>
    simp only [ahead?, better?, Option.map_none, Option.all_none, and_true]
    split <;> rfl
  | some best =>
    have hworth : (2 ≤ count c ∧ decide (count best < count c) = true) ↔
        count best < count c := by
      have htwo := hbest best rfl
      rw [decide_eq_true_iff]
      omega
    simp only [ahead?, better?, Option.map_some, Option.all_some, hworth]
    split <;> rfl

/-- Looking at all candidates finds the one that counts most with its count. -/
theorem foldl_ahead? (count : Cond κ → Nat) (candidates : List (Cond κ)) :
    candidates.foldl (ahead? count) none =
      (mostCounted? count candidates).map fun most ↦ (most, count most) := by
  -- What was found before counts at least two, so that what counts more does so as well.
  suffices ∀ best? : Option (Cond κ), (∀ best, best? = some best → 2 ≤ count best) →
      candidates.foldl (ahead? count) (best?.map fun best ↦ (best, count best)) =
        (candidates.foldl (better? count) best?).map fun most ↦ (most, count most) from
    this none nofun
  induction candidates with
  | nil => exact fun _ _ ↦ rfl
  | cons c candidates ih =>
    intro best? hbest
    rw [List.foldl_cons, List.foldl_cons, ahead?_map hbest]
    apply ih
    intro better hbetter
    rcases better?_cases hbetter with hbefore | ⟨rfl, htwo | ⟨before, hbefore, hlt⟩⟩
    · exact hbest better hbefore
    · exact htwo
    · have htwo := hbest before hbefore
      omega

variable [LawfulCustomCondition κ]

private theorem countP_branches {operand : Cond κ} (h : operand.IsNormal) (c : Cond κ) :
    (j.branches operand).countP (· == c) = if j.hasBranch c operand then 1 else 0 := by
  have hle : (j.branches operand).countP (· == c) ≤ 1 := by
    rcases j.branches_cases operand with ⟨inner, rfl, heq⟩ | heq
    · rw [heq]
      exact countP_beq_le_one h.different c
    · rw [heq]
      exact List.countP_le_length
  split
  · next hbranch =>
    have hpos := List.countP_pos_iff.mpr (List.any_eq_true.mp hbranch)
    omega
  · next hbranch =>
    rw [List.countP_eq_zero]
    exact List.any_eq_false.mp (Bool.eq_false_iff.mpr hbranch)

/-- A condition is counted once for each operand that shares it. -/
theorem shareCount_eq_length_sharing (h : ∀ operand ∈ operands, operand.IsNormal) (c : Cond κ) :
    j.shareCount operands c = (j.sharing c operands).length := by
  rw [sharing, ← List.countP_eq_length_filter, shareCount]
  induction operands with
  | nil => rfl
  | cons operand rest ih =>
    rw [List.forall_mem_cons] at h
    rw [List.flatMap_cons, List.countP_append, countP_branches h.1, ih h.2, List.countP_cons,
      Nat.add_comm]

end Junction

/-! ## Parting operands -/

/-- Operands parted by whether they have a branch. -/
structure Partition (κ : Type) [CustomCondition κ] where
  /-- The operands without the branch. -/
  kept : List (Cond κ)
  /-- What is left of the operands with the branch. -/
  remainders : List (Cond κ)
  /-- The number of operands that were kept when the first one with the branch was met. -/
  position? : Option Nat

private theorem insertIdx_length_append {α : Type} (xs ys : List α) (a : α) :
    (xs ++ ys).insertIdx xs.length a = xs ++ a :: ys := by
  induction xs with
  | nil => rfl
  | cons x xs ih => exact congrArg (x :: ·) ih

namespace Junction

/-- Goes on to an operand: it is kept, or leaves what it has besides the branch. -/
def assign (j : Junction) (common : Cond κ) (partition : Partition κ) (operand : Cond κ) :
    Partition κ :=
  if j.hasBranch common operand then
    { partition with
      remainders := partition.remainders ++ [j.remainder common operand]
      position? := partition.position?.or (some partition.kept.length) }
  else { partition with kept := partition.kept ++ [operand] }

/-- Goes through the operands from left to right. -/
def partition (j : Junction) (common : Cond κ) (operands : List (Cond κ)) : Partition κ :=
  operands.foldl (j.assign common) ⟨[], [], none⟩

/-- All operands at once: those without the branch are kept in their order, the others leave
remainders in theirs, and the position is that of the first operand with the branch. -/
def parted (j : Junction) (common : Cond κ) (operands : List (Cond κ)) : Partition κ where
  kept := operands.filter (!j.hasBranch common ·)
  remainders := (j.sharing common operands).map (j.remainder common)
  position? := operands.findIdx? (j.hasBranch common)

variable {j : Junction} {operands : List (Cond κ)} {common : Cond κ}

private theorem kept_of_findIdx?_eq_none (h : operands.findIdx? (j.hasBranch common) = none) :
    operands.filter (!j.hasBranch common ·) = operands ∧
      operands.takeWhile (!j.hasBranch common ·) = operands := by
  have hkept : ∀ operand ∈ operands, (!j.hasBranch common operand) = true := by
    intro operand hmem
    rw [List.findIdx?_eq_none_iff.mp h operand hmem, Bool.not_false]
  exact ⟨List.filter_eq_self.mpr hkept, List.takeWhile_eq_self_iff.mpr hkept⟩

/-- Going on to an operand parts one operand more. -/
theorem assign_parted (j : Junction) (common : Cond κ) (operands : List (Cond κ))
    (operand : Cond κ) :
    j.assign common (j.parted common operands) operand =
      j.parted common (operands ++ [operand]) := by
  rw [assign, parted, parted, sharing, sharing, List.filter_append, List.filter_append,
    List.findIdx?_append]
  by_cases hbranch : j.hasBranch common operand = true
  · have hposition : (operands.findIdx? (j.hasBranch common)).or
        (some (operands.filter (!j.hasBranch common ·)).length) =
          (operands.findIdx? (j.hasBranch common)).or (some operands.length) := by
      cases hfirst : operands.findIdx? (j.hasBranch common) with
      | some position => rfl
      | none => rw [(kept_of_findIdx?_eq_none hfirst).1]
    simp [hbranch, hposition]
  · simp [hbranch]

/-- Going through the operands parts them all. -/
theorem partition_eq_parted (j : Junction) (common : Cond κ) (operands : List (Cond κ)) :
    j.partition common operands = j.parted common operands := by
  induction operands using List.reverseRecOn with
  | nil => rfl
  | append_singleton operands operand ih =>
    rw [partition, List.foldl_concat, ← partition, ih, assign_parted]

private theorem length_takeWhile_eq (j : Junction) (common : Cond κ) (operands : List (Cond κ)) :
    (operands.takeWhile (!j.hasBranch common ·)).length =
      (j.parted common operands).position?.getD (j.parted common operands).kept.length := by
  rw [parted]
  cases hfirst : operands.findIdx? (j.hasBranch common) with
  | some position =>
    obtain ⟨hlt, hposition⟩ := List.findIdx?_eq_some_iff_findIdx_eq.mp hfirst
    rw [List.takeWhile_eq_take_findIdx_not]
    simp only [Bool.not_not]
    rw [hposition, List.length_take, Nat.min_eq_left (Nat.le_of_lt hlt), Option.getD_some]
  | none =>
    -- No operand has the shared branch, so all of them are kept.
    obtain ⟨hkept, hbefore⟩ := kept_of_findIdx?_eq_none hfirst
    rw [hkept, hbefore, Option.getD_none]

private theorem position?_parted (h : j.sharing common operands ≠ []) :
    (j.parted common operands).position? =
      some (operands.takeWhile (!j.hasBranch common ·)).length := by
  rw [length_takeWhile_eq]
  cases hfirst : (j.parted common operands).position? with
  | some position => rfl
  | none =>
    have hnone := List.findIdx?_eq_none_iff.mp hfirst
    exact absurd (List.filter_eq_nil_iff.mpr fun operand hmem ↦ by simp [hnone operand hmem]) h

private theorem length_kept (j : Junction) (common : Cond κ) (operands : List (Cond κ)) :
    (operands.filter (!j.hasBranch common ·)).length =
      operands.length - (j.sharing common operands).length := by
  rw [operands.length_eq_length_filter_add (j.hasBranch common), sharing, Nat.add_sub_cancel_left]

private theorem length_takeWhile_le (j : Junction) (common : Cond κ) (operands : List (Cond κ)) :
    (operands.takeWhile (!j.hasBranch common ·)).length ≤
      (operands.filter (!j.hasBranch common ·)).length := by
  rw [filter_not_hasBranch j common operands, List.length_append]
  exact Nat.le_add_right ..

private theorem insertIdx_kept (j : Junction) (common : Cond κ) (operands : List (Cond κ)) :
    (operands.filter (!j.hasBranch common ·)).insertIdx
        (operands.takeWhile (!j.hasBranch common ·)).length (j.factored common operands) =
      j.pullOut common operands := by
  rw [filter_not_hasBranch, insertIdx_length_append, pullOut]

end Junction

/-! ## Steps that could fail -/

/-- What a step cannot do. -/
inductive Fault where
  /-- Take away more than there is. -/
  | underflow (number taken : Nat)
  /-- Insert behind the end of a list. -/
  | outOfRange (position length : Nat)

/-- Takes away from a number. -/
def takeAway (number taken : Nat) : Except Fault Nat :=
  if taken ≤ number then .ok (number - taken) else .error (.underflow number taken)

/-- Inserts an item into a list. -/
def insertAt {α : Type} (items : List α) (position : Nat) (item : α) : Except Fault (List α) :=
  if position ≤ items.length then .ok (items.insertIdx position item)
  else .error (.outOfRange position items.length)

namespace Junction

/-- The branch that is counted most often, with its count, if that is at least two. -/
def mostTallied? (j : Junction) (digest : Cond κ → UInt64) (operands : List (Cond κ)) :
    Option (Cond κ × Nat) :=
  let branches := operands.flatMap j.branches
  (OrderedSet.ofList branches).toList.foldl
    (ahead? ((Tally.ofList digest branches).count digest)) none

/-- Pulls a branch out of the operands that it was counted for. Room is made for the operands that
are kept and a new one. -/
def pullOutTallied (j : Junction) (operands : List (Cond κ)) (common : Cond κ) (count : Nat) :
    Except Fault (List (Cond κ)) := do
  let _room := (← takeAway operands.length count) + 1
  let parted := j.partition common operands
  let factored := j.dual.make [common, j.make parted.remainders]
  insertAt parted.kept (parted.position?.getD parted.kept.length) factored

variable {j : Junction} {operands : List (Cond κ)} {common : Cond κ} {count : Nat}

/-- The steps succeed if no more operands were counted than there are. -/
theorem pullOutTallied_eq (h : count ≤ operands.length) :
    j.pullOutTallied operands common count = .ok (j.pullOut common operands) := by
  have hroom : takeAway operands.length count = .ok (operands.length - count) := if_pos h
  rw [pullOutTallied, hroom]
  change insertAt (j.partition common operands).kept _ _ = _
  rw [partition_eq_parted, ← length_takeWhile_eq, ← insertIdx_kept]
  exact if_pos (j.length_takeWhile_le common operands)

variable [LawfulCustomCondition κ]

/-- The branch that is counted most often is the one that is shared most. -/
theorem mostTallied?_eq (j : Junction) (hash outer : HashFunction) (operands : List (Cond κ)) :
    j.mostTallied? ((Cond.description hash).digest outer) operands =
      (j.mostShared? operands).map fun common ↦ (common, j.shareCount operands common) := by
  have hcount : (Tally.ofList ((Cond.description hash).digest outer)
      (operands.flatMap j.branches)).count ((Cond.description hash).digest outer) =
        j.shareCount operands :=
    funext fun c ↦ Tally.count_ofList ((Cond.description hash).digest_eq outer) _ c
  rw [mostTallied?, hcount, foldl_ahead?, mostShared?]

/-- The branch that is shared most is the first of those that most operands have. -/
theorem isFirstMost_of_mostShared? (hnormal : ∀ operand ∈ operands, operand.IsNormal)
    (h : j.mostShared? operands = some common) :
    IsFirstMost (fun branch ↦ (j.sharing branch operands).length) (operands.flatMap j.branches)
      common := by
  have hcount : (fun branch ↦ (j.sharing branch operands).length) = j.shareCount operands :=
    funext fun branch ↦ (shareCount_eq_length_sharing hnormal branch).symm
  have hfirst := isFirstMost_of_mostCounted? h
  rw [OrderedSet.toList_ofList] at hfirst
  rw [hcount]
  exact hfirst.of_firstOccurrences shareCount_congr

/-- No condition is a branch of more operands than the one that is shared most. -/
theorem length_sharing_le (hnormal : ∀ operand ∈ operands, operand.IsNormal)
    (h : j.mostShared? operands = some common) (branch : Cond κ) :
    (j.sharing branch operands).length ≤ (j.sharing common operands).length := by
  cases hsharing : j.sharing branch operands with
  | nil => exact Nat.zero_le _
  | cons operand rest =>
    have hmem : operand ∈ j.sharing branch operands := hsharing ▸ List.mem_cons_self
    obtain ⟨hoperand, hbranch⟩ := List.mem_filter.mp hmem
    obtain ⟨found, hfound, hbeq⟩ := List.any_eq_true.mp hbranch
    have hle := (isFirstMost_of_mostShared? hnormal h).count_le
      (List.mem_flatMap.mpr ⟨operand, hoperand, hfound⟩)
    rw [← hsharing, ← shareCount_eq_length_sharing hnormal, ← shareCount_congr hbeq,
      shareCount_eq_length_sharing hnormal]
    exact hle

/-- If two operands have a branch in common, there is one that is shared most. -/
theorem exists_mostShared? {branch : Cond κ} (h : 2 ≤ (j.sharing branch operands).length) :
    ∃ common, j.mostShared? operands = some common := by
  cases hshared : j.mostShared? operands with
  | some common => exact ⟨common, rfl⟩
  | none =>
    have hnothing : j.SharesNothing (j.sharing branch operands) :=
      (sharesNothing_of_mostShared?_eq_none hshared).sublist List.filter_sublist
    have hall : ∀ operand ∈ j.sharing branch operands, j.hasBranch branch operand = true :=
      fun operand hmem ↦ (List.mem_filter.mp hmem).2
    match hlist : j.sharing branch operands with
    | [] | [_] =>
      rw [hlist] at h
      simp at h
    | x :: y :: rest =>
      rw [hlist] at hnothing hall
      simp only [List.forall_mem_cons] at hall
      have hdifferent := (List.pairwise_cons.mp hnothing).1 y List.mem_cons_self branch
      exact absurd ⟨hall.1, hall.2.1⟩ hdifferent

end Junction

/-- Pulls the branch that is counted most often out of the operands of a junction, step by step. -/
def Cond.pullOutInSteps (hash outer : HashFunction) : Cond κ → Except Fault (Option (Cond κ))
  | compound j operands =>
    match j.mostTallied? ((description hash).digest outer) operands with
    | some (common, count) => (fun pulledOut ↦ some (j.make pulledOut)) <$>
        j.pullOutTallied operands common count
    | none => .ok none
  | _ => .ok none

namespace Cond

private theorem Reachable.isNormal_operand {j : Junction} {operands : List (Cond κ)}
    (h : (compound j operands).Reachable) : ∀ operand ∈ operands, operand.IsNormal :=
  fun operand hmem ↦ ((everywhere_compound.mp h.everywhere_isNormal).2 operand hmem).self

variable [LawfulCustomCondition κ]

/-- No step fails for a condition that can be built. -/
theorem pullOutInSteps_eq (hash outer : HashFunction) {c : Cond κ} (h : c.Reachable) :
    c.pullOutInSteps hash outer = .ok c.pullOutShared? := by
  cases c with
  | compound j operands =>
    rw [pullOutInSteps, j.mostTallied?_eq, pullOutShared?]
    cases j.mostShared? operands with
    | none => rfl
    | some common =>
      have hcount : j.shareCount operands common ≤ operands.length := by
        rw [Junction.shareCount_eq_length_sharing h.isNormal_operand]
        exact List.length_filter_le ..
      dsimp only [Option.map_some]
      rw [Junction.pullOutTallied_eq hcount]
      rfl
  | fixed truth => rfl
  | test key t => rfl
  | custom leaf => rfl
  | negation operand => rfl

/-- For a condition that can be built, no step fails, and the steps pull out the branch that is
shared most. If two operands of a junction share a branch, one that most operands have is taken, the
first one of these; it was counted once for each operand that has it. These operands leave a
remainder each, and the others are kept in their order. The new operand is inserted behind those
that were kept before the first one with the branch. -/
theorem pullOutInSteps_partitions (hash outer : HashFunction) {c : Cond κ} (h : c.Reachable) :
    c.pullOutInSteps hash outer = .ok c.pullOutShared? ∧
    ∀ j operands, c = compound j operands → (∃ branch, 2 ≤ (j.sharing branch operands).length) →
      ∃ common count kept position,
        j.mostTallied? ((description hash).digest outer) operands = some (common, count) ∧
        IsFirstMost (fun branch ↦ (j.sharing branch operands).length) (operands.flatMap j.branches)
          common ∧
        (∀ branch, (j.sharing branch operands).length ≤ count) ∧
        count = (j.sharing common operands).length ∧ count ≤ operands.length ∧
        j.partition common operands =
          ⟨kept, (j.sharing common operands).map (j.remainder common), some position⟩ ∧
        kept = operands.filter (!j.hasBranch common ·) ∧ kept.length = operands.length - count ∧
        position = (operands.takeWhile (!j.hasBranch common ·)).length ∧ position ≤ kept.length ∧
        c.pullOutShared? = some (j.make (kept.insertIdx position (j.factored common operands))) := by
  refine ⟨pullOutInSteps_eq hash outer h, ?_⟩
  rintro j operands rfl ⟨branch, hbranch⟩
  have hnormal := h.isNormal_operand
  obtain ⟨common, hcommon⟩ := Junction.exists_mostShared? hbranch
  have hmost := Junction.length_sharing_le hnormal hcommon
  have hshared : j.sharing common operands ≠ [] := by
    intro hnil
    have htwo := hbranch.trans (hmost branch)
    rw [hnil] at htwo
    cases htwo
  refine ⟨common, _, _, _, ?_, Junction.isFirstMost_of_mostShared? hnormal hcommon, hmost, rfl,
    List.length_filter_le .., ?_, rfl, j.length_kept common operands, rfl,
    j.length_takeWhile_le common operands, ?_⟩
  · rw [j.mostTallied?_eq, hcommon, Option.map_some,
      Junction.shareCount_eq_length_sharing hnormal]
  · rw [j.partition_eq_parted, ← Junction.position?_parted hshared]
    rfl
  · rw [j.insertIdx_kept, pullOutShared?, hcommon, Option.map_some]

/-- Two branches are shared by two operands each, one of them in two spellings, and other operands
stand before and between these. -/
def tiedOperands : List (Cond Tagged) :=
  [.test ⟨"z", rfl⟩ .isNull,
    .and [.test ⟨"n", rfl⟩ (.equal (.number ⟨false, 5, 0⟩)), .test ⟨"b", rfl⟩ .isTrue],
    .custom ⟨"t"⟩,
    .and [.custom ⟨"u"⟩, .test ⟨"b", rfl⟩ .isTrue,
      .test ⟨"n", rfl⟩ (.equal (.number ⟨false, 50, 1⟩))]]

/-- The branch that is met first is pulled out in its first spelling. The hash function only counts
tokens, so that all branches are counted under one digest. -/
theorem pullOutInSteps_partitions_tied :
    ∃ (length : HashFunction) (operands : List (Cond Tagged)),
      length = (fun tokens ↦ .ofNat tokens.length) ∧
      .or tiedOperands = compound .or operands ∧ (compound .or operands).Reachable ∧
      2 ≤ (Junction.or.sharing (.test ⟨"b", rfl⟩ .isTrue) operands).length ∧
      (compound .or operands).pullOutInSteps standardHash length =
        .ok (compound .or operands).pullOutShared? ∧
      ∃ (common : Cond Tagged) (kept : List (Cond Tagged)) (position : Nat),
        Junction.or.mostTallied? ((description standardHash).digest length) operands =
          some (common, 2) ∧
        IsFirstMost (fun branch ↦ (Junction.or.sharing branch operands).length)
          (operands.flatMap Junction.or.branches) common ∧
        common.toText = "n == 5" ∧ kept.map toText = ["z IS NULL", "tagged(t)"] ∧ position = 1 ∧
        (compound .or operands).pullOutShared? =
          some (.or (kept.insertIdx position (Junction.or.factored common operands))) := by
  have hitem (key : RecordKey) {t : Test} (h : t.kind ≠ .oneOf) :
      (test key t : Cond Tagged).Reachable := .test key h
  have hcompound : (.or tiedOperands : Cond Tagged) = compound .or _ :=
    Junction.make_eq_compound (by decide +kernel) (by decide +kernel)
  have hreachable : (.or tiedOperands : Cond Tagged).Reachable := by
    apply Reachable.make
    simp only [tiedOperands, List.forall_mem_cons]
    refine ⟨hitem _ (by decide), .make_pair .and (hitem _ (by decide)) (hitem _ (by decide)),
      .custom _, .make .and ?_, List.forall_mem_nil _⟩
    simp only [List.forall_mem_cons]
    exact ⟨.custom _, hitem _ (by decide), hitem _ (by decide), List.forall_mem_nil _⟩
  rw [hcompound] at hreachable
  obtain ⟨length, hlength⟩ : ∃ length : HashFunction, length = fun tokens ↦ .ofNat tokens.length :=
    ⟨_, rfl⟩
  have hshared : 2 ≤ (Junction.or.sharing (.test ⟨"b", rfl⟩ .isTrue)
      (Junction.or.flatten tiedOperands).toList).length := by decide +kernel
  obtain ⟨hok, hparts⟩ := pullOutInSteps_partitions standardHash length hreachable
  obtain ⟨common, count, kept, position, htallied, hfirst, -, -, -, hparted, -, -, -, -, hout⟩ :=
    hparts .or _ rfl ⟨_, hshared⟩
  have hrun : (Junction.or.mostTallied? ((description standardHash).digest length)
      (Junction.or.flatten tiedOperands).toList).map (fun found ↦
        let parted := Junction.or.partition found.1 (Junction.or.flatten tiedOperands).toList
        (found.1.toText, found.2, parted.kept.map toText, parted.position?)) =
      some ("n == 5", 2, ["z IS NULL", "tagged(t)"], some 1) := by
    rw [hlength]
    decide +kernel
  rw [htallied] at hrun
  simp only [Option.map_some, hparted, Option.some.injEq, Prod.mk.injEq] at hrun
  obtain ⟨htext, rfl, hkept, rfl⟩ := hrun
  exact ⟨length, _, hlength, hcompound, hreachable, hshared, hok, common, kept, _, htallied, hfirst,
    htext, hkept, rfl, hout⟩

end Cond

end Criteria
