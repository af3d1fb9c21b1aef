import Criteria.Proofs.Reachable
import Criteria.Proofs.Selection

/-!
# Reading a condition

A condition without custom parts can be evaluated without compiling it, by reading its tree from
left to right; where evaluation fails, there is no truth value. Main statements: the compiled
predicate has the truth value that is read off the tree, and this value says whether the condition
holds.
-/

namespace Criteria

/-! ## Junctions of truth values -/

namespace Junction

/-- The truth value of a junction whose operands have the given truth values, or none. Operands are
looked at from left to right, up to the first that decides the junction or has no truth value. -/
def combine? (j : Junction) : List (Option Bool) → Option Bool
  | [] => some j.neutral
  | none :: _ => none
  | some truth :: rest => if truth = j.absorbing then some truth else j.combine? rest

/-- Without operands, a junction is neutral. -/
@[simp] theorem combine?_nil (j : Junction) : j.combine? [] = some j.neutral := rfl

/-- An operand without truth value leaves the junction without one. -/
@[simp] theorem combine?_none (j : Junction) (rest : List (Option Bool)) :
    j.combine? (none :: rest) = none := rfl

/-- An absorbing operand decides the junction. -/
@[simp] theorem combine?_absorbing (j : Junction) (rest : List (Option Bool)) :
    j.combine? (some j.absorbing :: rest) = some j.absorbing := by
  rw [combine?, if_pos rfl]

/-- A neutral operand leaves the junction to the others. -/
@[simp] theorem combine?_neutral (j : Junction) (rest : List (Option Bool)) :
    j.combine? (some j.neutral :: rest) = j.combine? rest := by
  rw [combine?, if_neg j.neutral_ne_absorbing]

/-- A first operand has no truth value, is neutral, or is absorbing. -/
theorem value_cases (j : Junction) (value : Option Bool) :
    value = none ∨ value = some j.neutral ∨ value = some j.absorbing := by
  cases value with
  | none => exact .inl rfl
  | some truth => exact .inr ((j.eq_neutral_or_eq_absorbing truth).imp (congrArg _) (congrArg _))

/-- A single operand is the junction. -/
@[simp] theorem combine?_singleton (j : Junction) (value : Option Bool) :
    j.combine? [value] = value := by
  rcases j.value_cases value with rfl | rfl | rfl <;> simp

/-- The operands in front may be joined first. -/
theorem combine?_append (j : Junction) (values others : List (Option Bool)) :
    j.combine? (values ++ others) = j.combine? (j.combine? values :: others) := by
  induction values with
  | nil => simp
  | cons value rest ih =>
    rcases j.value_cases value with rfl | rfl | rfl
    · simp
    · simpa using ih
    · simp

/-- A junction is neutral exactly if all its operands are. -/
theorem combine?_eq_neutral_iff {j : Junction} {values : List (Option Bool)} :
    j.combine? values = some j.neutral ↔ ∀ value ∈ values, value = some j.neutral := by
  induction values with
  | nil => simp
  | cons value rest ih =>
    rw [List.forall_mem_cons]
    rcases j.value_cases value with rfl | rfl | rfl
    · simp
    · simpa using ih
    · simp [j.neutral_ne_absorbing.symm]

/-- A junction of more truth values has more of one. -/
theorem combine?_mono {j : Junction} {values others : List (Option Bool)}
    (h : List.Forall₂ (fun value other ↦ ∀ truth, value = some truth → other = some truth)
      values others) {truth : Bool} (htruth : j.combine? values = some truth) :
    j.combine? others = some truth := by
  induction h with
  | nil => exact htruth
  | @cons value other rest others hfirst _ ih =>
    rcases j.value_cases value with rfl | rfl | rfl
    · cases htruth
    · rw [combine?_neutral] at htruth
      rw [hfirst _ rfl, combine?_neutral]
      exact ih htruth
    · rw [combine?_absorbing] at htruth
      rw [hfirst _ rfl, combine?_absorbing]
      exact htruth

private theorem join_eq_of_combine? {j : Junction} {values : List (Option Bool)}
    {truths : List Bool}
    (h : List.Forall₂ (fun value truth ↦ ∀ known, value = some known → truth = known)
      values truths) {known : Bool} (hknown : j.combine? values = some known) :
    j.join truths = known := by
  induction h with
  | nil =>
    rw [join_nil]
    exact Option.some.inj hknown
  | @cons value truth values truths hfirst _ ih =>
    rcases j.value_cases value with rfl | rfl | rfl
    · cases hknown
    · rw [combine?_neutral] at hknown
      rw [hfirst _ rfl, join_neutral]
      exact ih hknown
    · rw [combine?_absorbing] at hknown
      rw [hfirst _ rfl, join_absorbing]
      exact Option.some.inj hknown

/-- Operands that all have a truth value are joined. -/
theorem combine?_map_some (j : Junction) (truths : List Bool) :
    j.combine? (truths.map some) = some (j.join truths) := by
  induction truths with
  | nil => rw [List.map_nil, combine?_nil, join_nil]
  | cons truth rest ih =>
    rw [List.map_cons]
    rcases j.eq_neutral_or_eq_absorbing truth with rfl | rfl
    · rw [combine?_neutral, ih, join_neutral]
    · rw [combine?_absorbing, join_absorbing]

end Junction

/-! ## Truth values of conditions -/

namespace Cond

variable {κ : Type} [CustomCondition κ]

mutual

/-- The truth value of a condition on a record, if evaluation gives one. A custom condition has
none. -/
def read? (record : Record) : Cond κ → Option Bool
  | fixed truth => some truth
  | test key t => (t.evaluate key record).toOption
  | custom _ => none
  | negation operand => (read? record operand).map (!·)
  | compound j operands => j.combine? (readEach? record operands)

/-- The truth values of several conditions. -/
def readEach? (record : Record) : List (Cond κ) → List (Option Bool)
  | [] => []
  | operand :: rest => read? record operand :: readEach? record rest

end

private theorem readEach?_eq_map (record : Record) (operands : List (Cond κ)) :
    readEach? record operands = operands.map (read? record) := by
  induction operands with
  | nil => rfl
  | cons operand rest ih => rw [readEach?, ih, List.map_cons]

variable {record : Record}

/-- A constant has its truth value on every record. -/
@[simp] theorem read?_fixed (truth : Bool) :
    (fixed truth : Cond κ).read? record = some truth := rfl

/-- A test has the truth value that it evaluates to. -/
@[simp] theorem read?_test (key : RecordKey) (t : Test) :
    (test key t : Cond κ).read? record = (t.evaluate key record).toOption := rfl

/-- A negation has the other truth value. -/
@[simp] theorem read?_negation (operand : Cond κ) :
    (negation operand).read? record = (operand.read? record).map (!·) := rfl

/-- The operands of a compound are read from left to right. -/
@[simp] theorem read?_compound (j : Junction) (operands : List (Cond κ)) :
    (compound j operands).read? record = j.combine? (operands.map (read? record)) := by
  rw [read?, readEach?_eq_map]

/-- Negating a condition gives it the other truth value. -/
@[simp] theorem read?_not (c : Cond κ) : c.not.read? record = (c.read? record).map (!·) := by
  cases c with
  | fixed truth => rfl
  | negation operand => simp [Cond.not, Option.map_map, Function.comp_def]
  | test key t => rfl
  | custom leaf => rfl
  | compound j operands => rfl

/-- A condition holds exactly if its truth value says so, where it has one. -/
theorem holds_of_read? {c : Cond κ} {truth : Bool} (h : c.read? record = some truth) :
    c.holds record = truth := by
  induction c generalizing truth with
  | fixed constant => exact Option.some.inj h
  | test key t =>
    rw [read?_test] at h
    rw [holds_test, h]
    rfl
  | custom leaf => cases h
  | negation operand ih =>
    rw [read?_negation] at h
    obtain ⟨inner, hinner, rfl⟩ := Option.map_eq_some_iff.mp h
    rw [holds_negation, ih hinner]
  | compound j operands ih =>
    rw [read?_compound] at h
    rw [holds_compound]
    apply Junction.join_eq_of_combine? _ h
    rw [List.forall₂_map_left_iff, List.forall₂_map_right_iff, List.forall₂_same]
    exact fun operand hmem _ ↦ ih operand hmem

/-! ## Truth values of predicates -/

/-- A junction of predicates joins their truth values. -/
theorem toOption_evaluate_junction (j : Junction) (record : Record)
    (predicates : List Predicate) : (j.evaluate record predicates).toOption =
      j.combine? (predicates.map fun p ↦ (p.evaluate record).toOption) := by
  induction predicates with
  | nil => rfl
  | cons p rest ih =>
    rw [Junction.evaluate, List.map_cons]
    cases hfirst : p.evaluate record with
    | error e => rfl
    | ok truth =>
      rcases j.eq_neutral_or_eq_absorbing truth with rfl | rfl
      · simpa [Except.toOption, bind, Except.bind, j.neutral_ne_absorbing] using ih
      · simp [Except.toOption, bind, Except.bind, pure, Except.pure]

/-- The compiled predicate of a condition has the truth value that is read off the condition. -/
theorem toOption_evaluate {c : Cond κ} {p : Predicate} (h : Predicate.compile c = .ok p)
    (record : Record) : (p.evaluate record).toOption = c.read? record := by
  induction c generalizing p with
  | fixed truth => cases h; rfl
  | test key t => cases h; rfl
  | custom leaf => cases h
  | negation operand ih =>
    rw [Predicate.compile] at h
    cases hoperand : Predicate.compile operand with
    | error e => rw [hoperand] at h; cases h
    | ok inner =>
      rw [hoperand] at h
      cases h
      rw [read?_negation, ← ih hoperand]
      cases heval : inner.evaluate record <;>
        simp [Predicate.complement, heval, Except.map, Except.toOption]
  | compound j operands ih =>
    rw [Predicate.compile, Predicate.compileAll_eq_mapM] at h
    cases hall : operands.mapM Predicate.compile with
    | error e => rw [hall] at h; cases h
    | ok predicates =>
      rw [hall] at h
      cases h
      have hread : predicates.map (fun p ↦ (p.evaluate record).toOption) =
          operands.map (read? record) := by
        have hboth := (List.forall₂_and_left _ _).mpr
          ⟨fun c hc p ↦ ih c hc (p := p), mapM_eq_ok_iff.mp hall⟩
        rw [← List.forall₂_eq_eq_eq, List.forall₂_map_left_iff, List.forall₂_map_right_iff]
        exact (hboth.imp fun c p hcp ↦ hcp.1 p hcp.2).flip
      rw [read?_compound, ← hread, ← toOption_evaluate_junction]

/-- The compiled predicate of a condition succeeds exactly with the truth value that is read off the
condition. -/
theorem evaluate_eq_ok_iff {c : Cond κ} {p : Predicate} (h : Predicate.compile c = .ok p)
    {truth : Bool} : p.evaluate record = .ok truth ↔ c.read? record = some truth := by
  rw [← toOption_evaluate h, toOption_eq_some_iff]

/-- Every condition without custom parts can be compiled. -/
theorem exists_compile {c : Cond κ} (h : c.CustomFree) : ∃ p, Predicate.compile c = .ok p := by
  induction c with
  | fixed truth => exact ⟨_, rfl⟩
  | test key t => exact ⟨_, rfl⟩
  | custom leaf => exact absurd rfl (h.self leaf)
  | negation operand ih =>
    obtain ⟨inner, hinner⟩ := ih (CustomFree.invariant.negated h)
    exact ⟨_, by rw [Predicate.compile, hinner]; rfl⟩
  | compound j operands ih =>
    have hoperands := CustomFree.invariant.operand h
    obtain ⟨predicates, hpredicates⟩ := exists_mapM_eq_ok fun operand hmem ↦
      ih operand hmem (hoperands operand hmem)
    refine ⟨⟨fun record ↦ j.evaluate record predicates⟩, ?_⟩
    rw [Predicate.compile, Predicate.compileAll_eq_mapM, hpredicates]
    rfl

/-- The condition can be compiled, and its predicate succeeds with the truth value. -/
def EvaluatesTo (record : Record) (c : Cond κ) (truth : Bool) : Prop :=
  ∃ p, Predicate.compile c = .ok p ∧ p.evaluate record = .ok truth

/-- A test evaluates to what it gives on the record. -/
@[simp] theorem evaluatesTo_test {key : RecordKey} {t : Test} {truth : Bool} :
    (test key t : Cond κ).EvaluatesTo record truth ↔ t.evaluate key record = .ok truth := by
  constructor
  · rintro ⟨_, ⟨⟩, h⟩
    exact h
  · exact fun h ↦ ⟨_, rfl, h⟩

/-- Without custom parts, a condition evaluates to the truth value that is read off it. -/
theorem evaluatesTo_iff {c : Cond κ} (hfree : c.CustomFree) {truth : Bool} :
    c.EvaluatesTo record truth ↔ c.read? record = some truth := by
  obtain ⟨p, hp⟩ := exists_compile hfree
  constructor
  · rintro ⟨q, hq, h⟩
    exact (evaluate_eq_ok_iff hq).mp h
  · exact fun h ↦ ⟨p, hp, (evaluate_eq_ok_iff hp).mpr h⟩

end Cond

end Criteria
