import Criteria.Proofs.Rebuilding

/-!
# Omitting leaves

A transformation without handlers for negations and junctions decides about the leaves of a
condition only, and everything above them follows. Main statement: it fails with the failure of the
first leaf that fails, also where all leaves before that one are dropped; a condition is dropped
exactly if all its leaves are; and if leaves are kept or dropped but not replaced, what is left of
the condition has no other leaves than those that were kept.
-/

namespace Criteria

variable {κ : Type} [CustomCondition κ]

/-! ## The ends of a condition -/

namespace Cond

/-- The constants, tests and custom conditions at the ends of a condition, from left to right. -/
def atoms (c : Cond κ) : List (Cond κ) := c.nodes.filter fun node ↦ !node.isCompound

/-- The atoms of a condition are its nodes without operands. -/
theorem mem_atoms_iff {c atom : Cond κ} :
    atom ∈ c.atoms ↔ atom ∈ c.nodes ∧ atom.isCompound = false := by
  rw [atoms, List.mem_filter, Bool.not_eq_eq_eq_not, Bool.not_true]

private theorem atoms_eq_singleton {c : Cond κ} (h : c.isCompound = false) : c.atoms = [c] := by
  cases c with
  | fixed truth => rfl
  | test key t => rfl
  | custom leaf => rfl
  | negation operand => cases h
  | compound j operands => cases h

private theorem everywhere_iff_of_isCompound_eq_false {P : Cond κ → Prop} {c : Cond κ}
    (h : c.isCompound = false) : c.Everywhere P ↔ P c := by
  cases c with
  | fixed truth => exact everywhere_fixed
  | test key t => exact everywhere_test
  | custom leaf => exact everywhere_custom
  | negation operand => cases h
  | compound j operands => cases h

private theorem atoms_negation (operand : Cond κ) : (negation operand).atoms = operand.atoms :=
  List.filter_cons_of_neg Bool.false_ne_true

private theorem atoms_compound (j : Junction) (operands : List (Cond κ)) :
    (compound j operands).atoms = operands.flatMap atoms := by
  rw [atoms, nodes, List.filter_cons_of_neg Bool.false_ne_true, nodesAll_eq_flatMap,
    List.filter_flatMap]
  rfl

end Cond

/-! ## Transformations of leaves -/

/-- Whether all conditions of the category have conditions as operands. -/
def Category.isCompound : Category → Bool
  | .kind .not | .kind .and | .kind .or | junction | compound => true
  | _ => false

namespace Transformation

/-- A transformation that leaves negations and junctions to the transformation of their operands,
and makes of every condition without operands what the function says. -/
structure Leafwise (t : Transformation κ)
    (f : Cond κ → Except TraversalError (Option (Cond κ))) : Prop where
  /-- There is no handler for conditions with operands. -/
  compound : ∀ category, category.isCompound = true → t.handler? category = none
  /-- A condition without operands becomes what the function says. -/
  leaf : ∀ c, c.isCompound = false → t.applyLeaf c = f c

/-- The transformation that makes of conditions without operands what the function says. -/
def ofLeaves (f : Cond κ → Except TraversalError (Option (Cond κ))) : Transformation κ where
  handler?
    | .item | .kind .fixed | .custom => some fun c ↦ .done (f c)
    | _ => none

/-- Every function of conditions without operands is that of a transformation. -/
theorem leafwise_ofLeaves (f : Cond κ → Except TraversalError (Option (Cond κ))) :
    (ofLeaves f).Leafwise f where
  compound category h := by
    cases category with
    | kind k => cases k <;> first | rfl | cases h
    | junction => rfl
    | compound => rfl
    | itemWithOperand => rfl
    | item => cases h
    | custom => cases h
    | any => rfl
  leaf c h := by
    cases c with
    | fixed truth => rfl
    | test key u =>
      cases u with
      | ordered relation v => cases relation <;> rfl
      | _ => rfl
    | custom leaf => rfl
    | negation operand => cases h
    | compound j operands => cases h

variable {t : Transformation κ}

/-- Transforming several conditions transforms each of them and leaves out the dropped ones. -/
theorem applyAll_eq_mapM (operands : List (Cond κ)) :
    t.applyAll operands = (List.filterMap id) <$> operands.mapM t.apply := by
  induction operands with
  | nil => rfl
  | cons operand rest ih =>
    rw [applyAll, List.mapM_cons, ih]
    cases t.apply operand with
    | error e => rfl
    | ok first? =>
      cases rest.mapM t.apply with
      | error e => rfl
      | ok others => cases first? <;> rfl

private theorem applyAll_eq_nil_iff {operands : List (Cond κ)} :
    t.applyAll operands = .ok [] ↔ ∀ operand ∈ operands, t.apply operand = .ok none := by
  induction operands with
  | nil => exact iff_of_true rfl (List.forall_mem_nil _)
  | cons operand rest ih =>
    rw [List.forall_mem_cons, ← ih, applyAll]
    constructor
    · intro h
      obtain ⟨first?, hfirst, h⟩ := bind_eq_ok_iff.mp h
      obtain ⟨others, hothers, h⟩ := bind_eq_ok_iff.mp h
      obtain ⟨hnone, rfl⟩ := List.append_eq_nil_iff.mp (Except.ok.inj h)
      rw [Option.toList_eq_nil_iff] at hnone
      exact ⟨hnone ▸ hfirst, hothers⟩
    · rintro ⟨hfirst, hothers⟩
      rw [hfirst, hothers]
      rfl

namespace Leafwise

variable {f : Cond κ → Except TraversalError (Option (Cond κ))}

private theorem action_eq_descend (h : t.Leafwise f) {c : Cond κ} (hc : c.isCompound = true) :
    t.action c = .descend := by
  apply action_eq_descend_of_forall
  intro category hmem
  have hall : (categories c).all Category.isCompound = true := by
    cases c with
    | negation operand => rfl
    | compound j operands => cases j <;> rfl
    | fixed truth => cases hc
    | test key u => cases hc
    | custom leaf => cases hc
  exact h.compound category (List.all_eq_true.mp hall category hmem)

private theorem apply_leaf (h : t.Leafwise f) {c : Cond κ} (hc : c.isCompound = false) :
    t.apply c = f c := (apply_eq_applyLeaf hc).trans (h.leaf c hc)

private theorem apply_negation (h : t.Leafwise f) (operand : Cond κ) :
    t.apply (.negation operand) = Option.map Cond.not <$> t.apply operand := by
  rw [apply, h.action_eq_descend rfl]
  rfl

private theorem apply_compound (h : t.Leafwise f) (j : Junction) (operands : List (Cond κ)) :
    t.apply (.compound j operands) =
      (fun kept ↦ if kept.isEmpty then none else some (j.make kept)) <$> t.applyAll operands := by
  rw [apply, h.action_eq_descend rfl]
  rfl

/-- The transformation fails as going through the atoms from left to right does. -/
theorem apply_eq_error_iff (h : t.Leafwise f) (c : Cond κ) (e : TraversalError) :
    t.apply c = .error e ↔ c.atoms.mapM f = .error e := by
  induction c using Cond.leafInduction generalizing e with
  | leaf c hc => rw [h.apply_leaf hc, Cond.atoms_eq_singleton hc, mapM_singleton_eq_error_iff]
  | negation operand ih =>
    rw [h.apply_negation, map_eq_error_iff, Cond.atoms_negation]
    exact ih e
  | compound j operands ih =>
    -- Operands that are dropped only go missing afterwards, so the first failure is met anyway.
    rw [h.apply_compound, map_eq_error_iff, applyAll_eq_mapM, map_eq_error_iff,
      Cond.atoms_compound]
    exact mapM_flatMap_eq_error_iff ih

/-- The transformation drops a condition exactly if the function drops all atoms. -/
theorem apply_eq_none_iff (h : t.Leafwise f) (c : Cond κ) :
    t.apply c = .ok none ↔ ∀ atom ∈ c.atoms, f atom = .ok none := by
  induction c using Cond.leafInduction with
  | leaf c hc => rw [h.apply_leaf hc, Cond.atoms_eq_singleton hc, List.forall_mem_singleton]
  | negation operand ih =>
    simp only [h.apply_negation, map_eq_ok_iff, Option.map_eq_none_iff, exists_eq_right,
      Cond.atoms_negation]
    exact ih
  | compound j operands ih =>
    have hempty (kept : List (Cond κ)) :
        (if kept.isEmpty then none else some (j.make kept)) = none ↔ kept = [] := by
      simp
    simp only [h.apply_compound, map_eq_ok_iff, hempty, exists_eq_right, applyAll_eq_nil_iff,
      Cond.atoms_compound, List.forall_mem_flatMap]
    exact forall₂_congr ih

/-- The transformation succeeds exactly if the function does for all atoms. -/
theorem exists_apply_eq_ok_iff (h : t.Leafwise f) (c : Cond κ) :
    (∃ result, t.apply c = .ok result) ↔ ∀ atom ∈ c.atoms, ∃ result, f atom = .ok result := by
  simp only [exists_eq_ok_iff, ne_eq, h.apply_eq_error_iff]
  simp only [← ne_eq, ← exists_eq_ok_iff]
  constructor
  · rintro ⟨results, hresults⟩ atom hatom
    obtain ⟨result, -, hresult⟩ := exists_result_of_mapM_eq_ok hresults hatom
    exact ⟨result, hresult⟩
  · exact exists_mapM_eq_ok

/-- The transformation makes a condition exactly if the function does for all atoms what does not
fail, and does not drop them all. -/
theorem exists_apply_eq_some_iff (h : t.Leafwise f) (c : Cond κ) :
    (∃ d, t.apply c = .ok (some d)) ↔ (∀ atom ∈ c.atoms, ∃ result, f atom = .ok result) ∧
      ∃ atom ∈ c.atoms, ∃ d, f atom = .ok (some d) := by
  constructor
  · rintro ⟨d, hd⟩
    have hresults := (h.exists_apply_eq_ok_iff c).mp ⟨some d, hd⟩
    refine ⟨hresults, ?_⟩
    by_contra hnone
    have hdropped : t.apply c = .ok none := by
      rw [h.apply_eq_none_iff]
      intro atom hatom
      obtain ⟨result, hresult⟩ := hresults atom hatom
      cases result with
      | none => exact hresult
      | some e => exact absurd ⟨atom, hatom, e, hresult⟩ hnone
    rw [hd] at hdropped
    cases hdropped
  · rintro ⟨hresults, atom, hatom, e, he⟩
    obtain ⟨result, hresult⟩ := (h.exists_apply_eq_ok_iff c).mpr hresults
    cases result with
    | some d => exact ⟨d, hresult⟩
    | none =>
      rw [(h.apply_eq_none_iff c).mp hresult atom hatom] at he
      cases he

private theorem apply_induction (h : t.Leafwise f) {P : Cond κ → Prop} (hnot : ∀ {d}, P d → P d.not)
    (hmake : ∀ (j : Junction) {kept}, (∀ d ∈ kept, P d) → P (j.make kept)) {c d : Cond κ}
    (hatom : ∀ atom ∈ c.atoms, ∀ e, f atom = .ok (some e) → P e)
    (hd : t.apply c = .ok (some d)) : P d := by
  induction c using Cond.leafInduction generalizing d with
  | leaf c hc =>
    rw [Cond.atoms_eq_singleton hc, List.forall_mem_singleton] at hatom
    rw [h.apply_leaf hc] at hd
    exact hatom d hd
  | negation operand ih =>
    rw [h.apply_negation] at hd
    rw [Cond.atoms_negation] at hatom
    obtain ⟨result?, hresult, heq⟩ := map_eq_ok_iff.mp hd
    obtain ⟨e, rfl, rfl⟩ := Option.map_eq_some_iff.mp heq
    exact hnot (ih hatom hresult)
  | compound j operands ih =>
    rw [h.apply_compound] at hd
    rw [Cond.atoms_compound, List.forall_mem_flatMap] at hatom
    obtain ⟨kept, hkept, heq⟩ := map_eq_ok_iff.mp hd
    split at heq
    · cases heq
    · cases heq
      apply hmake
      intro e he
      obtain ⟨operand, hmem, hresult⟩ := exists_mem_of_applyAll hkept he
      exact ih operand hmem (hatom operand hmem) hresult

/-- A node that, if it has no operands and is no constant, is an atom of the given condition that
the function keeps. -/
def IsKept (f : Cond κ → Except TraversalError (Option (Cond κ))) (c node : Cond κ) : Prop :=
  node.isCompound = false → (∀ truth, node ≠ .fixed truth) →
    node ∈ c.atoms ∧ f node = .ok (some node)

/-- If atoms are kept or dropped, then the atoms of what the transformation makes, other than
constants, are kept ones. -/
theorem mem_atoms_of_apply (h : t.Leafwise f) {c d : Cond κ}
    (hkeeps : ∀ atom ∈ c.atoms, f atom = .ok none ∨ f atom = .ok (some atom))
    (hd : t.apply c = .ok (some d)) {atom : Cond κ} (hatom : atom ∈ d.atoms)
    (hfixed : ∀ truth, atom ≠ .fixed truth) : atom ∈ c.atoms ∧ f atom = .ok (some atom) := by
  -- Constants are left out, since a junction may collapse to one that is no atom of the condition.
  have hconstant : ∀ truth, IsKept f c (.fixed truth) := fun truth _ hne ↦ absurd rfl (hne truth)
  suffices d.Everywhere (IsKept f c) from
    this atom (Cond.mem_atoms_iff.mp hatom).1 (Cond.mem_atoms_iff.mp hatom).2 hfixed
  refine h.apply_induction (P := Cond.Everywhere (IsKept f c))
    (Cond.Everywhere.negate hconstant fun _ _ _ ↦ nofun)
    (Cond.Everywhere.join hconstant fun _ _ ↦ nofun) ?_ hd
  intro other hother e he
  rcases hkeeps other hother with hnone | hsome
  · rw [hnone] at he
    cases he
  · rw [hsome] at he
    cases he
    rw [Cond.everywhere_iff_of_isCompound_eq_false (Cond.mem_atoms_iff.mp hother).2]
    exact fun _ _ ↦ ⟨hother, hsome⟩

/-- If all atoms of a condition in normal form are kept, it is given back. -/
theorem apply_eq_self_of_keeps (h : t.Leafwise f) {c : Cond κ}
    (hnormal : c.Everywhere Cond.IsNormal)
    (hkeeps : ∀ atom ∈ c.atoms, f atom = .ok (some atom)) : t.apply c = .ok (some c) := by
  apply apply_eq_self hnormal
  intro node hnode
  cases hcompound : node.isCompound with
  | true => exact .inl (h.action_eq_descend hcompound)
  | false =>
    have hleaf := (h.leaf node hcompound).trans
      (hkeeps node (Cond.mem_atoms_iff.mpr ⟨hnode, hcompound⟩))
    rw [applyLeaf] at hleaf
    split at hleaf
    · next hdone => exact .inr (hleaf ▸ hdone)
    · next hdescend => exact .inl hdescend

/-- The transformation fails with the failure of the first atom that fails. Without one, it drops
the condition if all atoms are dropped, and otherwise makes a condition. If atoms are kept or
dropped, all atoms of what it makes, other than constants, are kept ones, and if none is dropped, it
gives back the condition. -/
theorem apply_outcome (h : t.Leafwise f) {c : Cond κ} (hc : c.Reachable) :
    (∀ e, t.apply c = .error e ↔ c.atoms.findSome? (fun atom ↦ failure? (f atom)) = some e) ∧
    (t.apply c = .ok none ↔ ∀ atom ∈ c.atoms, f atom = .ok none) ∧
    ((∃ d, t.apply c = .ok (some d)) ↔ (∀ atom ∈ c.atoms, ∃ result, f atom = .ok result) ∧
      ∃ atom ∈ c.atoms, ∃ d, f atom = .ok (some d)) ∧
    ((∀ atom ∈ c.atoms, f atom = .ok none ∨ f atom = .ok (some atom)) →
      (∀ d, t.apply c = .ok (some d) → ∀ atom ∈ d.atoms, (∀ truth, atom ≠ .fixed truth) →
        atom ∈ c.atoms ∧ f atom = .ok (some atom)) ∧
      ((∀ atom ∈ c.atoms, f atom ≠ .ok none) → t.apply c = .ok (some c))) := by
  refine ⟨fun e ↦ (h.apply_eq_error_iff c e).trans mapM_eq_error_iff, h.apply_eq_none_iff c,
    h.exists_apply_eq_some_iff c, fun hkeeps ↦ ⟨?_, ?_⟩⟩
  · exact fun d hd atom hatom hfixed ↦ h.mem_atoms_of_apply hkeeps hd hatom hfixed
  · intro hdrops
    apply h.apply_eq_self_of_keeps hc.everywhere_isNormal
    exact fun atom hatom ↦ (hkeeps atom hatom).resolve_left (hdrops atom hatom)

/-- The tests of absence are dropped and the custom conditions fail. A disjunction of a negated
conjunction of such tests and of custom conditions fails with the first of these, one of the
conjunction and another such test is dropped, and a conjunction with other tests keeps these. -/
theorem apply_outcome_mixed : ∃ (f : Cond Tagged → Except TraversalError (Option (Cond Tagged)))
    (absent failing dropped left : Cond Tagged),
    (f = fun c ↦ if c.kind? = none then .error (.noHandler c.toText c.label)
      else if c.kind? = some .isNull then .ok none else .ok (some c)) ∧
    absent = .not (.and [.test ⟨"a", rfl⟩ .isNull, .test ⟨"b", rfl⟩ .isNull]) ∧
    failing = .or [absent, .and [.test ⟨"c", rfl⟩ .isNull, .custom ⟨"t"⟩], .custom ⟨"u"⟩] ∧
    dropped = .or [absent, .test ⟨"c", rfl⟩ .isNull] ∧
    left = .and [.test ⟨"c", rfl⟩ .isNull, .or [absent, .not (.test ⟨"a", rfl⟩ .isTrue)]] ∧
    (ofLeaves f).apply failing = .error (.noHandler "tagged(t)" "TaggedCond") ∧
    (ofLeaves f).apply dropped = .ok none ∧
    (∃ d, (ofLeaves f).apply left = .ok (some d) ∧
      ∀ atom ∈ d.atoms, (∀ truth, atom ≠ .fixed truth) →
        atom ∈ left.atoms ∧ f atom = .ok (some atom)) := by
  obtain ⟨f, hf⟩ : ∃ f : Cond Tagged → Except TraversalError (Option (Cond Tagged)), f = fun c ↦
      if c.kind? = none then .error (.noHandler c.toText c.label)
      else if c.kind? = some .isNull then .ok none else .ok (some c) := ⟨_, rfl⟩
  have hdrops {c : Cond Tagged} (hc : c.kind? = some .isNull) : f c = .ok none := by
    simp [hf, hc]
  have hkeeps {c : Cond Tagged} {kind : Kind} (hc : c.kind? = some kind) (hne : kind ≠ .isNull) :
      f c = .ok (some c) := by
    simp [hf, hc, hne]
  have hdecides {c : Cond Tagged} (hkinds : (c.atoms.all fun atom ↦
      atom.kind? == some .isNull || atom.kind? == some .isTrue) = true) :
      ∀ atom ∈ c.atoms, f atom = .ok none ∨ f atom = .ok (some atom) := by
    intro atom hatom
    have hkind := List.all_eq_true.mp hkinds atom hatom
    rw [Bool.or_eq_true, beq_iff_eq, beq_iff_eq] at hkind
    exact hkind.imp hdrops fun hkind ↦ hkeeps hkind (by decide)
  have hnull (key : RecordKey) : (.test key .isNull : Cond Tagged).Reachable :=
    .test key (by decide)
  have habsent : (Cond.not (.and [.test ⟨"a", rfl⟩ .isNull, .test ⟨"b", rfl⟩ .isNull]) :
      Cond Tagged).Reachable := .not (.make_pair .and (hnull _) (hnull _))
  have hleafwise := leafwise_ofLeaves f
  refine ⟨f, _, _, _, _, hf, rfl, rfl, rfl, rfl, ?_, ?_, ?_⟩
  · apply ((apply_outcome hleafwise ?reachable).1 _).mpr
    case reachable =>
      apply Cond.Reachable.make
      simp only [List.forall_mem_cons]
      exact ⟨habsent, .make_pair .and (hnull _) (.custom _), .custom _, List.forall_mem_nil _⟩
    rw [hf]
    decide +kernel
  · apply (apply_outcome hleafwise (.make_pair .or habsent (hnull _))).2.1.mpr
    intro atom hatom
    apply hdrops
    revert atom
    decide +kernel
  · have hnegated : (Cond.test ⟨"a", rfl⟩ .isTrue : Cond Tagged).Reachable := .test _ (by decide)
    have hleft := apply_outcome hleafwise
      (.make_pair .and (hnull ⟨"c", rfl⟩) (.make_pair .or habsent hnegated.not))
    have hkinds := hdecides (c := .and [.test ⟨"c", rfl⟩ .isNull, .or [.not
      (.and [.test ⟨"a", rfl⟩ .isNull, .test ⟨"b", rfl⟩ .isNull]),
      .not (.test ⟨"a", rfl⟩ .isTrue)]]) (by decide +kernel)
    have hkept := List.any_eq_true.mp (show (List.any (Cond.atoms (.and [.test ⟨"c", rfl⟩ .isNull,
      .or [.not (.and [.test ⟨"a", rfl⟩ .isNull, .test ⟨"b", rfl⟩ .isNull]),
      .not (.test ⟨"a", rfl⟩ .isTrue)]] : Cond Tagged)) (·.kind? == some .isTrue)) = true by
        decide +kernel)
    obtain ⟨kept, hmem, hkind⟩ := hkept
    obtain ⟨d, hd⟩ := hleft.2.2.1.mpr ⟨fun atom hatom ↦ (hkinds atom hatom).elim
      (fun hnone ↦ ⟨_, hnone⟩) (fun hsome ↦ ⟨_, hsome⟩),
      kept, hmem, kept, hkeeps (beq_iff_eq.mp hkind) (by decide)⟩
    exact ⟨d, hd, (hleft.2.2.2 hkinds).1 d hd⟩

end Leafwise

end Transformation

end Criteria
