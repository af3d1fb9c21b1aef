import Criteria.Build

/-!
# Nodes of a condition

The nodes of a condition are the condition itself and all its parts, in the order of reading.
Main statements: negating or joining conditions adds no node except what it builds.
-/

namespace Criteria.Cond

variable {κ : Type} [CustomCondition κ]

mutual

/-- The condition and all its parts, each before its own parts and from left to right. -/
def nodes : Cond κ → List (Cond κ)
  | fixed truth => [fixed truth]
  | test key t => [test key t]
  | custom leaf => [custom leaf]
  | negation operand => negation operand :: nodes operand
  | compound j operands => compound j operands :: nodesAll operands

/-- The nodes of several conditions, one condition after the other. -/
def nodesAll : List (Cond κ) → List (Cond κ)
  | [] => []
  | operand :: rest => nodes operand ++ nodesAll rest

end

/-- The nodes of several conditions are those of each of them. -/
theorem nodesAll_eq_flatMap (operands : List (Cond κ)) :
    nodesAll operands = operands.flatMap nodes := by
  induction operands with
  | nil => rfl
  | cons operand rest ih =>
    rw [List.flatMap_cons, ← ih]
    rfl

/-- The nodes of a compound are the compound and those of its operands. -/
theorem mem_nodes_compound_iff {j : Junction} {operands : List (Cond κ)} {node : Cond κ} :
    node ∈ (compound j operands).nodes ↔
      node = compound j operands ∨ ∃ operand ∈ operands, node ∈ operand.nodes := by
  rw [← List.mem_flatMap, ← nodesAll_eq_flatMap]
  exact List.mem_cons

/-- A condition is one of its nodes. -/
theorem self_mem_nodes (c : Cond κ) : c ∈ c.nodes := by
  cases c with
  | fixed truth => exact List.mem_singleton_self _
  | test key t => exact List.mem_singleton_self _
  | custom leaf => exact List.mem_singleton_self _
  | negation operand => exact List.mem_cons_self
  | compound j operands => exact List.mem_cons_self

/-- The property holds at every node of the condition. -/
def Everywhere (P : Cond κ → Prop) (c : Cond κ) : Prop := ∀ node ∈ c.nodes, P node

/-- Whether a property that can be told of a node holds at every node can be told. -/
instance (P : Cond κ → Prop) [DecidablePred P] (c : Cond κ) : Decidable (Everywhere P c) :=
  inferInstanceAs (Decidable (∀ node ∈ c.nodes, P node))

variable {P : Cond κ → Prop}

/-- A constant is its only node. -/
@[simp] theorem everywhere_fixed {truth : Bool} :
    Everywhere P (fixed truth) ↔ P (fixed truth) := List.forall_mem_singleton

/-- A test is its only node. -/
@[simp] theorem everywhere_test {key : RecordKey} {t : Test} :
    Everywhere P (test key t) ↔ P (test key t) := List.forall_mem_singleton

/-- A custom condition is its only node. -/
@[simp] theorem everywhere_custom {leaf : κ} :
    Everywhere P (custom leaf) ↔ P (custom leaf) := List.forall_mem_singleton

/-- The nodes of a negation are the negation and those of what it negates. -/
@[simp] theorem everywhere_negation {operand : Cond κ} :
    Everywhere P (negation operand) ↔ P (negation operand) ∧ Everywhere P operand :=
  List.forall_mem_cons

/-- A property of all nodes of a compound is one of the compound and of all nodes of its operands.
-/
@[simp] theorem everywhere_compound {j : Junction} {operands : List (Cond κ)} :
    Everywhere P (compound j operands) ↔
      P (compound j operands) ∧ ∀ operand ∈ operands, Everywhere P operand := by
  constructor
  · intro h
    refine ⟨h _ (mem_nodes_compound_iff.mpr (.inl rfl)), ?_⟩
    exact fun operand hmem node hnode ↦
      h node (mem_nodes_compound_iff.mpr (.inr ⟨operand, hmem, hnode⟩))
  · rintro ⟨hself, hall⟩ node hnode
    rcases mem_nodes_compound_iff.mp hnode with rfl | ⟨operand, hmem, hnode⟩
    · exact hself
    · exact hall operand hmem node hnode

/-- A property of all nodes is one of the condition itself. -/
theorem Everywhere.self {c : Cond κ} (h : Everywhere P c) : P c := h c c.self_mem_nodes

/-- A test of membership in the values of a list is its only node. -/
@[simp] theorem everywhere_memberOf {key : RecordKey} {values : List Value} :
    Everywhere P (memberOf key values) ↔ P (memberOf key values) := by
  refine memberOf_cases key values ?_ ?_ ?_
  · exact fun _ ↦ everywhere_fixed
  · exact fun _ _ ↦ everywhere_test
  · exact fun _ ↦ everywhere_test

/-- The nodes of a negated condition are what it was negated to and nodes of the condition. -/
theorem Everywhere.not {c : Cond κ} (hself : P c.not) (h : Everywhere P c) :
    Everywhere P c.not := by
  cases c with
  | fixed truth => exact everywhere_fixed.mpr hself
  | negation operand => exact (everywhere_negation.mp h).2
  | test key t => exact everywhere_negation.mpr ⟨hself, h⟩
  | custom leaf => exact everywhere_negation.mpr ⟨hself, h⟩
  | compound j operands => exact everywhere_negation.mpr ⟨hself, h⟩

/-- What operands contribute to a junction is found at their nodes. -/
theorem Everywhere.of_mem_flatten {j : Junction} {operands : List (Cond κ)}
    (h : ∀ operand ∈ operands, Everywhere P operand) {c : Cond κ}
    (hc : c ∈ (j.flatten operands).toList) : Everywhere P c := by
  obtain ⟨operand, hoperand, hpart⟩ := Junction.exists_mem_parts_of_mem_flatten hc
  have hall := h operand hoperand
  rcases j.parts_cases operand with ⟨-, heq⟩ | ⟨inner, rfl, heq⟩ | heq
  · rw [heq] at hpart
    cases hpart
  · rw [heq] at hpart
    exact (everywhere_compound.mp hall).2 c hpart
  · rw [heq, List.mem_singleton] at hpart
    rwa [hpart]

/-- The nodes of a junction are what was built and nodes of the operands. -/
theorem Everywhere.make {j : Junction} {operands : List (Cond κ)} (hself : P (j.make operands))
    (h : ∀ operand ∈ operands, Everywhere P operand) : Everywhere P (j.make operands) := by
  revert hself
  refine j.make_cases operands ?_ ?_ ?_ ?_
  · intro _ hself
    exact everywhere_fixed.mpr hself
  · intro c hsingle _
    exact of_mem_flatten h (hsingle ▸ List.mem_singleton_self c)
  · intro _ hself
    exact everywhere_fixed.mpr hself
  · intro _ _ hself
    exact everywhere_compound.mpr ⟨hself, fun c hc ↦ of_mem_flatten h hc⟩

/-- Negating keeps a property of all nodes that constants have and all negations that can be
built. -/
theorem Everywhere.negate (hfixed : ∀ truth, P (.fixed truth))
    (hnegation : ∀ operand, (∀ truth, operand ≠ .fixed truth) →
      (∀ inner, operand ≠ .negation inner) → P (.negation operand))
    {c : Cond κ} (h : Everywhere P c) : Everywhere P c.not := by
  refine .not ?_ h
  cases c with
  | fixed truth => exact hfixed _
  | negation operand => exact (everywhere_negation.mp h).2.self
  | test key t => exact hnegation _ nofun nofun
  | custom leaf => exact hnegation _ nofun nofun
  | compound j operands => exact hnegation _ nofun nofun

/-- Joining keeps a property of all nodes that constants and compounds have. -/
theorem Everywhere.join (hfixed : ∀ truth, P (.fixed truth))
    (hcompound : ∀ j operands, P (.compound j operands)) (j : Junction) {operands : List (Cond κ)}
    (h : ∀ operand ∈ operands, Everywhere P operand) : Everywhere P (j.make operands) := by
  refine .make (j.make_cases operands ?_ ?_ ?_ ?_) h
  · exact fun _ ↦ hfixed _
  · intro c hsingle
    exact (of_mem_flatten h (hsingle ▸ List.mem_singleton_self c)).self
  · exact fun _ ↦ hfixed _
  · exact fun _ _ ↦ hcompound _ _

end Criteria.Cond
