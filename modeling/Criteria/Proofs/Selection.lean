import Criteria.Build
import Criteria.Proofs.Congruence

/-!
# What a condition selects

A test that fails can be counted as one that is not passed. Every condition then holds on a record
or does not, in whatever order its operands are looked at. Main statements: equal conditions hold
on the same records, and a junction that was built holds where the compound of its operands does.
-/

namespace Criteria

/-! ## Junctions of truth values -/

namespace Junction

/-- The truth value of a junction whose operands have the given truth values. -/
def join : Junction → List Bool → Bool
  | and, truths => truths.all id
  | or, truths => truths.any id

/-- A junction is decided exactly if one of its operands decides it. -/
theorem join_eq_absorbing_iff {j : Junction} {truths : List Bool} :
    j.join truths = j.absorbing ↔ j.absorbing ∈ truths := by
  cases j <;> simp [join, absorbing, neutral]

/-- A junction is neutral exactly if all its operands are. -/
theorem join_eq_neutral_iff {j : Junction} {truths : List Bool} :
    j.join truths = j.neutral ↔ ∀ truth ∈ truths, truth = j.neutral := by
  cases j <;> simp [join, neutral]

/-- Without operands, a junction is neutral. -/
@[simp] theorem join_nil (j : Junction) : j.join [] = j.neutral := by cases j <;> rfl

/-- An absorbing operand decides the junction. -/
@[simp] theorem join_absorbing (j : Junction) (rest : List Bool) :
    j.join (j.absorbing :: rest) = j.absorbing :=
  join_eq_absorbing_iff.mpr List.mem_cons_self

/-- A neutral operand leaves the junction to the others. -/
@[simp] theorem join_neutral (j : Junction) (rest : List Bool) :
    j.join (j.neutral :: rest) = j.join rest := by
  cases j <;> simp [join, neutral]

private theorem ne_absorbing_iff {j : Junction} {truth : Bool} :
    truth ≠ j.absorbing ↔ truth = j.neutral := by
  cases j <;> cases truth <;> decide

/-- Truth values are the same if they are absorbing in the same cases. -/
theorem eq_of_absorbing_iff {j : Junction} {truth other : Bool}
    (h : truth = j.absorbing ↔ other = j.absorbing) : truth = other := by
  rcases j.eq_neutral_or_eq_absorbing truth with rfl | rfl
  · have hother : other ≠ j.absorbing := mt h.mpr j.neutral_ne_absorbing
    exact (ne_absorbing_iff.mp hother).symm
  · exact (h.mp rfl).symm

/-- The order of the operands does not matter. -/
theorem join_perm {j : Junction} {truths others : List Bool} (h : truths.Perm others) :
    j.join truths = j.join others := by
  apply eq_of_absorbing_iff (j := j)
  rw [join_eq_absorbing_iff, join_eq_absorbing_iff, h.mem_iff]

/-- The dual junction of the opposite truth values is the opposite. -/
theorem join_dual_map_not (j : Junction) (truths : List Bool) :
    j.dual.join (truths.map (!·)) = !j.join truths := by
  induction truths with
  | nil => rw [List.map_nil, join_nil, join_nil, not_neutral]
  | cons truth rest ih =>
    rw [List.map_cons]
    rcases j.eq_neutral_or_eq_absorbing truth with rfl | rfl
    · rw [join_neutral, ← ih, not_neutral, join_neutral]
    · rw [join_absorbing, not_absorbing, join_absorbing]

end Junction

/-! ## Truth values of conditions -/

namespace Cond

variable {κ : Type} [CustomCondition κ]

mutual

/-- Whether a condition holds on a record, where a test that fails is not passed. A custom
condition never holds. -/
def holds (record : Record) : Cond κ → Bool
  | fixed truth => truth
  | test key t => (t.evaluate key record).toOption.getD false
  | custom _ => false
  | negation operand => !holds record operand
  | compound j operands => j.join (holdsEach record operands)

/-- Which of several conditions hold. -/
def holdsEach (record : Record) : List (Cond κ) → List Bool
  | [] => []
  | operand :: rest => holds record operand :: holdsEach record rest

end

private theorem holdsEach_eq_map (record : Record) (operands : List (Cond κ)) :
    holdsEach record operands = operands.map (holds record) := by
  induction operands with
  | nil => rfl
  | cons operand rest ih => rw [holdsEach, ih, List.map_cons]

variable {record : Record}

/-- A constant holds on every record or on none. -/
@[simp] theorem holds_fixed (truth : Bool) : (fixed truth : Cond κ).holds record = truth := rfl

/-- A test holds if it is passed. -/
@[simp] theorem holds_test (key : RecordKey) (t : Test) :
    (test key t : Cond κ).holds record = (t.evaluate key record).toOption.getD false := rfl

/-- A negation holds where its operand does not. -/
@[simp] theorem holds_negation (operand : Cond κ) :
    (negation operand).holds record = !operand.holds record := rfl

/-- A compound joins what holds of its operands. -/
@[simp] theorem holds_compound (j : Junction) (operands : List (Cond κ)) :
    (compound j operands).holds record = j.join (operands.map (holds record)) := by
  rw [holds, holdsEach_eq_map]

/-- Negating a condition selects the other records. -/
@[simp] theorem holds_not (c : Cond κ) : c.not.holds record = !c.holds record := by
  cases c with
  | fixed truth => rfl
  | negation operand => exact (Bool.not_not _).symm
  | test key t => rfl
  | custom leaf => rfl
  | compound j operands => rfl

/-- A compound is decided by an operand. -/
theorem holds_compound_eq_absorbing_iff {j : Junction} {operands : List (Cond κ)} :
    (compound j operands).holds record = j.absorbing ↔
      ∃ operand ∈ operands, operand.holds record = j.absorbing := by
  rw [holds_compound, Junction.join_eq_absorbing_iff, List.mem_map]

/-- Equal conditions hold on the same records. -/
theorem holds_eq_of_equal {c d : Cond κ} (h : equal c d = true) :
    c.holds record = d.holds record := by
  refine equal_induction ?_ ?_ ?_ ?_ ?_ h
  · exact fun _ ↦ rfl
  · intro key t u htest
    rw [holds_test, holds_test, Test.evaluate_congr htest]
  · exact fun _ ↦ rfl
  · intro operand other ih
    rw [holds_negation, holds_negation, ih]
  · intro j operands others ih hpairs
    rw [holds_compound, holds_compound]
    exact Junction.join_perm (map_perm_of_pairUp ih hpairs)

private theorem exists_parts_iff {j : Junction} {operand : Cond κ} :
    (∃ part ∈ j.parts operand, part.holds record = j.absorbing) ↔
      operand.holds record = j.absorbing := by
  rcases j.parts_cases operand with ⟨rfl, heq⟩ | ⟨operands, rfl, heq⟩ | heq
  · simp [heq, j.neutral_ne_absorbing]
  · rw [heq, holds_compound_eq_absorbing_iff]
  · simp [heq]

private theorem exists_flatten_iff {j : Junction} {operands : List (Cond κ)} :
    (∃ c ∈ (j.flatten operands).toList, c.holds record = j.absorbing) ↔
      ∃ operand ∈ operands, operand.holds record = j.absorbing := by
  constructor
  · rintro ⟨c, hc, hholds⟩
    obtain ⟨operand, hoperand, hpart⟩ := Junction.exists_mem_parts_of_mem_flatten hc
    exact ⟨operand, hoperand, exists_parts_iff.mp ⟨c, hpart, hholds⟩⟩
  · rintro ⟨operand, hoperand, hholds⟩
    obtain ⟨part, hpart, hholds⟩ := exists_parts_iff.mpr hholds
    have hmem := List.mem_flatMap.mpr ⟨operand, hoperand, hpart⟩
    have hcontains := OrderedSet.contains_insertAll_of_mem .empty hmem (beq_self_eq_true part)
    obtain ⟨c, hc, hbeq⟩ := OrderedSet.contains_iff.mp hcontains
    rw [beq_def] at hbeq
    exact ⟨c, hc, (holds_eq_of_equal hbeq).trans hholds⟩

private theorem exists_of_isDecided {j : Junction} {operands : OrderedSet (Cond κ)}
    (h : j.isDecided operands = true) :
    ∃ c ∈ operands.toList, c.holds record = j.absorbing := by
  rcases Bool.or_eq_true_iff.mp h with hconstant | hcontradictory
  · obtain ⟨c, hc, hbeq⟩ := OrderedSet.contains_iff.mp hconstant
    rw [beq_def] at hbeq
    exact ⟨c, hc, holds_eq_of_equal hbeq⟩
  · obtain ⟨c, hc, hnot⟩ := List.any_eq_true.mp hcontradictory
    obtain ⟨d, hd, hbeq⟩ := OrderedSet.contains_iff.mp hnot
    rw [beq_def] at hbeq
    have hopposite : d.holds record = !c.holds record := by
      rw [holds_eq_of_equal hbeq, holds_not]
    rcases j.eq_neutral_or_eq_absorbing (c.holds record) with hneutral | habsorbing
    · exact ⟨d, hd, by rw [hopposite, hneutral]; rfl⟩
    · exact ⟨c, hc, habsorbing⟩

/-- A junction holds where the compound of its operands does. -/
theorem holds_make (j : Junction) (operands : List (Cond κ)) :
    (j.make operands).holds record = (compound j operands).holds record := by
  apply Junction.eq_of_absorbing_iff (j := j)
  rw [holds_compound_eq_absorbing_iff, ← exists_flatten_iff]
  refine j.make_cases operands ?_ ?_ ?_ ?_
  · intro hnil
    simp [hnil, j.neutral_ne_absorbing]
  · intro c hsingle
    simp [hsingle]
  · intro hdecided
    exact iff_of_true rfl (exists_of_isDecided hdecided)
  · intro _ _
    exact holds_compound_eq_absorbing_iff

end Cond

end Criteria
