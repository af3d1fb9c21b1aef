import Criteria.Proofs.Obtainable
import Criteria.Proofs.Refinement

/-!
# Replacing tests

A transformation with handlers for tests only puts other conditions in the place of the tests and
rebuilds everything above them. What it puts there may be constant, compound, or equal to what it
puts elsewhere, so that any part of the condition may collapse when it is rebuilt. Main statement:
what is rebuilt evaluates as the tree of the given condition does when every test has the truth
value of its replacement.
-/

namespace Criteria

/-- Whether all conditions of the category are tests. -/
def Category.isItem : Category → Bool
  | .kind k => k.isItem
  | itemWithOperand | item => true
  | _ => false

variable {κ : Type} [CustomCondition κ]

/-- The transformation has handlers for no other conditions than tests. -/
def Transformation.HandlesItems (t : Transformation κ) : Prop :=
  ∀ category, category.isItem = false → t.handler? category = none

/-! ## Replacement -/

namespace Cond

mutual

/-- The condition rebuilt with other conditions in the place of its tests. -/
def replace (f : RecordKey → Test → Cond κ) : Cond κ → Cond κ
  | fixed truth => fixed truth
  | test key t => f key t
  | custom leaf => custom leaf
  | negation operand => (replace f operand).not
  | compound j operands => j.make (replaceAll f operands)

/-- Several conditions rebuilt with other conditions in the place of their tests. -/
def replaceAll (f : RecordKey → Test → Cond κ) : List (Cond κ) → List (Cond κ)
  | [] => []
  | operand :: rest => replace f operand :: replaceAll f rest

end

private theorem replaceAll_eq_map (f : RecordKey → Test → Cond κ) (operands : List (Cond κ)) :
    replaceAll f operands = operands.map (replace f) := by
  induction operands with
  | nil => rfl
  | cons operand rest ih => rw [replaceAll, ih, List.map_cons]

variable {f : RecordKey → Test → Cond κ}

/-- Rebuilding a condition keeps an invariant of it that all replacements have. -/
theorem Invariant.replace {P : Cond κ → Prop} (h : Invariant P) {c : Cond κ} (hc : P c)
    (hf : ∀ key u, test key u ∈ c.nodes → P (f key u)) : P (c.replace f) := by
  induction c with
  | fixed truth => exact hc
  | test key u => exact hf key u (self_mem_nodes _)
  | custom leaf => exact hc
  | negation operand ih =>
    apply h.not
    apply ih (h.negated hc)
    exact fun key u hmem ↦ hf key u (List.mem_cons_of_mem _ hmem)
  | compound j operands ih =>
    rw [Cond.replace, replaceAll_eq_map]
    apply h.make
    intro rebuilt hrebuilt
    obtain ⟨operand, hoperand, rfl⟩ := List.mem_map.mp hrebuilt
    apply ih operand hoperand (h.operand hc operand hoperand)
    intro key u hmem
    exact hf key u (mem_nodes_compound_iff.mpr (.inr ⟨operand, hoperand, hmem⟩))

end Cond

namespace Transformation

variable {t : Transformation κ} {f : RecordKey → Test → Cond κ}

private theorem isItem_eq_false_of_mem_categories {c : Cond κ} (hc : c.key? = none)
    {category : Category} (h : category ∈ categories c) : category.isItem = false := by
  have hall : (categories c).all (!·.isItem) = true := by
    cases c with
    | fixed truth => rfl
    | test key u => cases hc
    | custom leaf => rfl
    | negation operand => rfl
    | compound j operands => cases j <;> rfl
  simpa using List.all_eq_true.mp hall category h

private theorem HandlesItems.action_eq_descend (h : t.HandlesItems) {c : Cond κ}
    (hc : c.key? = none) :
    t.action c = .descend :=
  action_eq_descend_of_forall fun category hmem ↦
    h category (isItem_eq_false_of_mem_categories hc hmem)

private theorem applyAll_eq_ok {operands : List (Cond κ)} {g : Cond κ → Cond κ}
    (h : ∀ operand ∈ operands, t.apply operand = .ok (some (g operand))) :
    t.applyAll operands = .ok (operands.map g) := by
  induction operands with
  | nil => rfl
  | cons operand rest ih =>
    rw [List.forall_mem_cons] at h
    rw [applyAll, h.1, ih h.2]
    rfl

/-- A compound whose operands all become others is rebuilt from these. -/
theorem apply_compound_eq {j : Junction} {operands : List (Cond κ)} {g : Cond κ → Cond κ}
    (haction : t.action (.compound j operands) = .descend) (hsome : operands ≠ [])
    (h : ∀ operand ∈ operands, t.apply operand = .ok (some (g operand))) :
    t.apply (.compound j operands) = .ok (some (j.make (operands.map g))) := by
  have hnonempty : (operands.map g).isEmpty = false := by simpa using hsome
  rw [apply, haction]
  dsimp only
  rw [applyAll_eq_ok h, Except.map, hnonempty]
  rfl

/-- With handlers for tests only, a condition is rebuilt from what the tests become. -/
theorem HandlesItems.apply_eq_replace (h : t.HandlesItems) {c : Cond κ}
    (hnormal : c.Everywhere Cond.IsNormal)
    (hf : ∀ key u, .test key u ∈ c.nodes → t.apply (.test key u) = .ok (some (f key u))) :
    t.apply c = .ok (some (c.replace f)) := by
  induction c with
  | fixed truth =>
    rw [apply, applyLeaf, h.action_eq_descend (c := .fixed truth) rfl]
    rfl
  | test key u => exact hf key u (Cond.self_mem_nodes _)
  | custom leaf =>
    rw [apply, applyLeaf, h.action_eq_descend (c := .custom leaf) rfl]
    rfl
  | negation operand ih =>
    rw [apply, h.action_eq_descend (c := .negation operand) rfl]
    dsimp only
    rw [ih (Cond.everywhere_negation.mp hnormal).2 fun key u hmem ↦
      hf key u (List.mem_cons_of_mem _ hmem)]
    rfl
  | compound j operands ih =>
    obtain ⟨hself, hoperands⟩ := Cond.everywhere_compound.mp hnormal
    rw [Cond.replace, Cond.replaceAll_eq_map]
    apply apply_compound_eq (h.action_eq_descend rfl) hself.ne_nil
    intro operand hoperand
    apply ih operand hoperand (hoperands operand hoperand)
    intro key u hmem
    exact hf key u (Cond.mem_nodes_compound_iff.mpr (.inr ⟨operand, hoperand, hmem⟩))

/-- The transformation that replaces every test by the given function of its key and its test. -/
def replacing (f : RecordKey → Test → Cond κ) : Transformation κ :=
  single .item fun
    | .test key u => .done (.ok (some (f key u)))
    | _ => .descend

private theorem handlesItems_replacing (f : RecordKey → Test → Cond κ) :
    (replacing f).HandlesItems := by
  intro category hitem
  apply if_neg
  rintro rfl
  cases hitem

private theorem apply_replacing_test (f : RecordKey → Test → Cond κ) (key : RecordKey) (u : Test) :
    (replacing f).apply (.test key u) = .ok (some (f key u)) := by
  cases u with
  | ordered relation v => cases relation <;> rfl
  | _ => rfl

end Transformation

/-! ## Meaning -/

namespace Cond

mutual

/-- The truth value of a condition whose tests have the given ones. A custom condition is false. -/
def truthUnder (value : RecordKey → Test → Bool) : Cond κ → Bool
  | fixed truth => truth
  | test key t => value key t
  | custom _ => false
  | negation operand => !truthUnder value operand
  | compound j operands => j.join (truthsUnder value operands)

/-- The truth values of several conditions whose tests have the given ones. -/
def truthsUnder (value : RecordKey → Test → Bool) : List (Cond κ) → List Bool
  | [] => []
  | operand :: rest => truthUnder value operand :: truthsUnder value rest

end

private theorem truthsUnder_eq_map (value : RecordKey → Test → Bool) (operands : List (Cond κ)) :
    truthsUnder value operands = operands.map (truthUnder value) := by
  induction operands with
  | nil => rfl
  | cons operand rest ih => rw [truthsUnder, ih, List.map_cons]

variable {f : RecordKey → Test → Cond κ} {record : Record} {value : RecordKey → Test → Bool}

/-- Where all replacements have truth values, the rebuilt condition has the one of the tree. -/
theorem read?_replace {c : Cond κ} (hfree : c.CustomFree)
    (hf : ∀ key u, test key u ∈ c.nodes → (f key u).read? record = some (value key u)) :
    (c.replace f).read? record = some (c.truthUnder value) := by
  induction c with
  | fixed truth => rfl
  | test key u => exact hf key u (self_mem_nodes _)
  | custom leaf => exact absurd rfl (hfree.self leaf)
  | negation operand ih =>
    rw [replace, read?_not, ih (CustomFree.invariant.negated hfree) fun key u hmem ↦
      hf key u (List.mem_cons_of_mem _ hmem)]
    rfl
  | compound j operands ih =>
    have hread : operands.map (fun operand ↦ (operand.replace f).read? record) =
        operands.map fun operand ↦ some (operand.truthUnder value) := by
      apply List.map_congr_left
      intro operand hoperand
      apply ih operand hoperand (CustomFree.invariant.operand hfree operand hoperand)
      intro key u hmem
      exact hf key u (mem_nodes_compound_iff.mpr (.inr ⟨operand, hoperand, hmem⟩))
    rw [replace, replaceAll_eq_map, truthUnder, truthsUnder_eq_map]
    apply refinedBy_make
    rw [read?_compound, ← Junction.combine?_map_some, List.map_map, List.map_map]
    exact congrArg j.combine? hread

end Cond

/-- A transformation that replaces tests succeeds, and on every record on which all replacements
evaluate to truth values, what it makes evaluates to the one that the tree of the given condition
has with them. -/
theorem Transformation.HandlesItems.evaluate_apply {t : Transformation κ} (ht : t.HandlesItems)
    {f : RecordKey → Test → Cond κ} {c : Cond κ} (hreachable : c.Reachable)
    (hfree : c.CustomFree)
    (hf : ∀ key u, .test key u ∈ c.nodes →
      t.apply (.test key u) = .ok (some (f key u)) ∧ (f key u).Reachable ∧ (f key u).CustomFree) :
    ∃ d q, t.apply c = .ok (some d) ∧ d.Reachable ∧ d.CustomFree ∧ Predicate.compile d = .ok q ∧
      ∀ (record : Record) (value : RecordKey → Test → Bool),
        (∀ key u, .test key u ∈ c.nodes →
          ∃ p, Predicate.compile (f key u) = .ok p ∧ p.evaluate record = .ok (value key u)) →
        q.evaluate record = .ok (c.truthUnder value) := by
  have hfree' : (c.replace f).CustomFree :=
    Cond.CustomFree.invariant.replace hfree fun key u hmem ↦ (hf key u hmem).2.2
  obtain ⟨q, hq⟩ := Cond.exists_compile hfree'
  refine ⟨c.replace f, q, ?_, ?_, hfree', hq, ?_⟩
  · exact ht.apply_eq_replace hreachable.everywhere_isNormal fun key u hmem ↦ (hf key u hmem).1
  · exact Cond.Reachable.invariant.replace hreachable fun key u hmem ↦ (hf key u hmem).2.1
  · intro record value hvalue
    rw [Cond.evaluate_eq_ok_iff hq]
    apply Cond.read?_replace hfree
    intro key u hmem
    obtain ⟨p, hp, hevaluate⟩ := hvalue key u hmem
    exact (Cond.evaluate_eq_ok_iff hp).mp hevaluate

/-- One test becomes constant, and the conjunction around it collapses, so that what replaces the
last one is left alone. On the record without fields, the given condition is true. -/
theorem Transformation.HandlesItems.evaluate_apply_collapsed :
    ∃ (f : RecordKey → Test → Cond Empty) (c d : Cond Empty) (q : Predicate),
      (f = fun key u ↦ if u.kind = .isNull then .fixed false else .not (.test key .isNull)) ∧
      c = .or [.and [.not (.test ⟨"a", rfl⟩ .isTrue), .test ⟨"b", rfl⟩ .isNull],
        .test ⟨"c", rfl⟩ .isTrue] ∧
      (Transformation.replacing f).HandlesItems ∧ c.Reachable ∧
      (Transformation.replacing f).apply c = .ok (some d) ∧ Predicate.compile d = .ok q ∧
      q.evaluate (.ofFields []) = .ok false := by
  obtain ⟨f, hf⟩ : ∃ f : RecordKey → Test → Cond Empty,
      f = fun key u ↦ if u.kind = .isNull then .fixed false else .not (.test key .isNull) :=
    ⟨_, rfl⟩
  have hfree (c : Cond Empty) : c.CustomFree := fun _ _ leaf ↦ leaf.elim
  have hitem (key : RecordKey) {u : Test} (h : u.kind ≠ .oneOf) :
      (Cond.test key u : Cond Empty).Reachable := .test key h
  have hc := Cond.Reachable.make_pair .or
    (.make_pair .and (hitem ⟨"a", rfl⟩ (u := .isTrue) (by decide)).not
      (hitem ⟨"b", rfl⟩ (u := .isNull) (by decide)))
    (hitem ⟨"c", rfl⟩ (u := .isTrue) (by decide))
  have hreachable (key : RecordKey) (u : Test) : (f key u).Reachable := by
    rw [hf]
    dsimp only
    split
    · exact .fixed false
    · exact (hitem key (by decide)).not
  have hvalue (key : RecordKey) (u : Test) : ∃ p, Predicate.compile (f key u) = .ok p ∧
      p.evaluate (.ofFields []) = .ok false := by
    rw [hf]
    dsimp only
    split
    · exact ⟨_, rfl, rfl⟩
    · exact ⟨_, rfl, rfl⟩
  obtain ⟨d, q, hd, -, -, hq, hresult⟩ := evaluate_apply (Transformation.handlesItems_replacing f)
    hc (hfree _) fun key u _ ↦
      ⟨Transformation.apply_replacing_test f key u, hreachable key u, hfree _⟩
  refine ⟨f, _, d, q, hf, rfl, Transformation.handlesItems_replacing f, hc, hd, hq, ?_⟩
  rw [hresult _ (fun _ _ ↦ false) fun key u _ ↦ hvalue key u]
  apply congrArg
  decide +kernel

end Criteria
