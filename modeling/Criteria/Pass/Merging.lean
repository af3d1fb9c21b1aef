import Criteria.Build

/-!
# Merging equalities

Tests of equality and membership on one key that stand beside each other in a disjunction become
one test of membership: `a == 1 OR a IN (2, 3)` becomes `a IN (1, 2, 3)`. In a conjunction the same
happens to their negations. The merged test stands where the first of its tests stood, and its
values keep the order of their first occurrence.
-/

namespace Criteria

variable {κ : Type} [CustomCondition κ]

namespace Cond

/-- The key and the values of a test of equality or membership. -/
def membership? : Cond κ → Option (RecordKey × List Value)
  | test key (.equal v) => some (key, [v])
  | test key (.oneOf members) => some (key, members.toList)
  | _ => none

end Cond

namespace Junction

/-- The key and the values of an operand that can be merged with others of its key: in a
disjunction a test of equality or membership, and in a conjunction the negation of one. -/
def mergeable? (j : Junction) (c : Cond κ) : Option (RecordKey × List Value) :=
  match j with
  | or => c.membership?
  | and => c.negated?.bind Cond.membership?

/-- The test that takes the place of all mergeable operands of a key with the given values. -/
def merged (j : Junction) (key : RecordKey) (values : List Value) : Cond κ :=
  match j with
  | or => .memberOf key values
  | and => (Cond.memberOf key values).not

/-- The values that the mergeable operands of a key have together. -/
def valuesOn (j : Junction) (key : RecordKey) (operands : List (Cond κ)) : List Value :=
  operands.flatMap fun c ↦
    match j.mergeable? c with
    | some (k, values) => if k = key then values else []
    | none => []

/-- The keys of the mergeable operands, as often as there are operands. -/
def mergeableKeys (j : Junction) (operands : List (Cond κ)) : List RecordKey :=
  operands.filterMap fun c ↦ (j.mergeable? c).map Prod.fst

/-- Goes through operands and puts the merged test of a key where its first mergeable operand
stands. The keys seen before are given, and the values are those on a key in all operands. -/
def mergeFrom (j : Junction) (valuesOn : RecordKey → List Value) (seen : List RecordKey) :
    List (Cond κ) → List (Cond κ)
  | [] => []
  | c :: rest =>
    match j.mergeable? c with
    | none => c :: mergeFrom j valuesOn seen rest
    | some (key, _) =>
      if key ∈ seen then mergeFrom j valuesOn seen rest
      else j.merged key (valuesOn key) :: mergeFrom j valuesOn (key :: seen) rest

/-- The operands with all mergeable ones of a key in one. -/
def mergeOperands (j : Junction) (operands : List (Cond κ)) : List (Cond κ) :=
  j.mergeFrom (j.valuesOn · operands) [] operands

/-- What can be merged in a conjunction is the negation of a test of equality or membership. -/
theorem exists_negation_of_mergeable?_and {c : Cond κ} {found : RecordKey × List Value}
    (h : Junction.and.mergeable? c = some found) :
    ∃ operand, c = .negation operand ∧ operand.membership? = some found := by
  obtain ⟨operand, hnegated, hmembership⟩ := Option.bind_eq_some_iff.mp h
  cases c with
  | negation inner =>
    cases hnegated
    exact ⟨operand, rfl, hmembership⟩
  | fixed truth => exact nomatch hnegated
  | test key t => exact nomatch hnegated
  | custom leaf => exact nomatch hnegated
  | compound i operands => exact nomatch hnegated

/-- The values on a key are those of the operands that can be merged with others of the key. -/
theorem mem_valuesOn_iff {j : Junction} {key : RecordKey} {operands : List (Cond κ)}
    {value : Value} : value ∈ j.valuesOn key operands ↔
      ∃ c ∈ operands, ∃ values, j.mergeable? c = some (key, values) ∧ value ∈ values := by
  rw [valuesOn, List.mem_flatMap]
  apply exists_congr
  intro c
  apply and_congr_right
  intro _
  cases j.mergeable? c with
  | none => simp
  | some found =>
    obtain ⟨k, values⟩ := found
    by_cases hkey : k = key
    · simp [hkey]
    · simp [hkey]

/-- The values on a key include those of each operand with the key. -/
theorem subset_valuesOn {j : Junction} {key : RecordKey} {operands : List (Cond κ)} {c : Cond κ}
    {values : List Value} (hc : c ∈ operands) (h : j.mergeable? c = some (key, values)) :
    values ⊆ j.valuesOn key operands := by
  intro value hvalue
  exact mem_valuesOn_iff.mpr ⟨c, hc, values, h, hvalue⟩

/-- What results are the operands that cannot be merged, and the merged tests of the keys that were
not seen before. -/
theorem mem_mergeFrom_iff {j : Junction} {valuesOn : RecordKey → List Value}
    {seen : List RecordKey} {operands : List (Cond κ)} {c : Cond κ} :
    c ∈ j.mergeFrom valuesOn seen operands ↔ (c ∈ operands ∧ j.mergeable? c = none) ∨
      ∃ operand ∈ operands, ∃ key values, j.mergeable? operand = some (key, values) ∧
        key ∉ seen ∧ c = j.merged key (valuesOn key) := by
  induction operands generalizing seen with
  | nil => simp [mergeFrom]
  | cons operand rest ih =>
    rw [mergeFrom]
    cases hoperand : j.mergeable? operand with
    | none =>
      simp only [List.mem_cons, ih]
      grind
    | some found =>
      obtain ⟨key, values⟩ := found
      dsimp only
      split
      · rw [ih]
        grind
      · simp only [List.mem_cons, ih]
        grind

end Junction

namespace Cond

/-- Merges the operands of a junction, if two of them can be merged. -/
def mergeOperands (c : Cond κ) : Cond κ :=
  match c with
  | compound j operands =>
    if (j.mergeableKeys operands).Nodup then c else j.make (j.mergeOperands operands)
  | _ => c

mutual

/-- Merges equalities in all junctions of a condition, from the leaves up. -/
def merge : Cond κ → Cond κ
  | fixed truth => fixed truth
  | test key t => test key t
  | custom leaf => custom leaf
  | negation operand => (merge operand).not
  | compound j operands => (j.make (mergeAll operands)).mergeOperands

/-- Merges equalities in several conditions. -/
def mergeAll : List (Cond κ) → List (Cond κ)
  | [] => []
  | operand :: rest => merge operand :: mergeAll rest

end

/-- Equalities are merged in each condition on its own. -/
theorem mergeAll_eq_map (operands : List (Cond κ)) : mergeAll operands = operands.map merge := by
  induction operands with
  | nil => rfl
  | cons operand rest ih => rw [mergeAll, ih, List.map_cons]

end Cond

end Criteria
