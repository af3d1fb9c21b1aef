import Criteria.Proofs.Fallback
import Criteria.Proofs.Gathering
import Criteria.Proofs.Leaves
import Criteria.Proofs.NegationNormalForm

/-!
# Passes as transformations

A pass is a transformation with one handler. The handlers of factoring and of merging have the
operands of a junction transformed first, as a transformation does where it has no handler, and
those of factoring and of pushing negations down hand conditions that they have built to the
transformation that they belong to. A handler is therefore written down for any transformation that
it may belong to. Main statements: for each pass there is a transformation that its handler belongs
to, and every such transformation makes of a condition that can be built what the pass makes of it.
-/

namespace Criteria

variable {κ : Type} [CustomCondition κ]

/-! ## Merging under names -/

namespace Junction

/-- Fills the places one after the other. The test of a key is built under the name of the key,
which may be refused. -/
def fillNamed (j : Junction) (groups : Std.HashMap RecordKey TestGroup) :
    List (Slot κ) → Except TraversalError (List (Cond κ))
  | [] => .ok []
  | .keep c :: rest => (c :: ·) <$> j.fillNamed groups rest
  | .merge key :: rest => do
    let values := (groups[key]?.map TestGroup.values).getD .empty
    let test ← (Cond.isIn key.name values.toList).mapError .build
    let others ← j.fillNamed (groups.erase key) rest
    return (match j with | .or => test | .and => test.not) :: others

private theorem fillNamed_eq (j : Junction) (groups : Std.HashMap RecordKey TestGroup)
    (slots : List (Slot κ)) : j.fillNamed groups slots = .ok (j.fill groups slots) := by
  induction slots generalizing groups with
  | nil => rfl
  | cons slot rest ih =>
    cases slot with
    | keep c => rw [fillNamed, ih, fill]; rfl
    | merge key =>
      rw [fillNamed, Cond.isIn_name, ih, fill]
      cases j <;> rfl

end Junction

/-- Merges the operands of a junction in two steps, building the tests under the names of their
keys. -/
def Cond.mergeNamed (c : Cond κ) : Except TraversalError (Cond κ) :=
  match c with
  | compound j operands =>
    if (j.gathered operands).groups.all fun _ group ↦ decide (group.members < 2) then .ok c
    else j.make <$> j.fillNamed (j.gathered operands).groups (j.gathered operands).slots
  | _ => .ok c

/-- Merging under names is merging. -/
theorem Cond.mergeNamed_eq (c : Cond κ) : c.mergeNamed = .ok c.mergeOperands := by
  rw [← mergeInTwoSteps_eq]
  cases c with
  | compound j operands =>
    rw [mergeNamed, mergeInTwoSteps, j.fillNamed_eq, Junction.mergeGathered]
    split <;> rfl
  | fixed truth => rfl
  | test key t => rfl
  | custom leaf => rfl
  | negation operand => rfl

/-! ## Handlers of passes -/

namespace Pass

/-- The conditions that a pass has a handler for. -/
def category : Pass → Category
  | factoring | merging => .junction
  | negation => .kind .not

/-- What the handler of a pass answers for a condition of its category, in a transformation that it
belongs to. -/
def respond (pass : Pass) (t : Transformation κ) (c : Cond κ) :
    Except TraversalError (Option (Cond κ)) :=
  match pass with
  | factoring => do
    match ← t.rebuild c with
    | none => return none
    | some rebuilt =>
      match rebuilt.pullOutShared? with
      | some shorter => t.apply shorter
      | none => return some rebuilt
  | merging => do
    match ← t.rebuild c with
    | none => return none
    | some rebuilt => some <$> rebuilt.mergeNamed
  | negation =>
    match c with
    | .negation (.compound j operands) => t.apply (j.dual.make (operands.map Cond.not))
    | .negation operand =>
      if operand.kind?.any Kind.isItem then .ok (some c)
      else .error (.unsupportedNegation operand.label)
    | c => .ok (some c)

/-- The handler of the pass belongs to the transformation, which has no other one. What it says
about conditions that cannot be built is left open. -/
structure BelongsTo (pass : Pass) (t : Transformation κ) : Prop where
  /-- The handler answers as that of the pass. -/
  handled : ∃ handle, t.handler? pass.category = some handle ∧
    ∀ c, c.Reachable → pass.category ∈ c.specificCategories → handle c = .done (pass.respond t c)
  /-- There is no other handler. -/
  unhandled : ∀ category, category ≠ pass.category → t.handler? category = none

/-- What becomes of a condition in a transformation that the handler of a pass belongs to. -/
def answer (pass : Pass) (t : Transformation κ) (c : Cond κ) :
    Except TraversalError (Option (Cond κ)) :=
  if pass.category ∈ c.specificCategories then pass.respond t c else t.rebuild c

end Pass

/-- A transformation with a handler for one category, which is not that of all conditions, carries
out what the handler says about the conditions of this category and rebuilds the others. -/
theorem Transformation.apply_eq_of_handler {t : Transformation κ} {category : Category}
    {handle : Cond κ → Action κ} (hany : category ≠ .any)
    (hhandle : t.handler? category = some handle)
    (hother : ∀ other, other ≠ category → t.handler? other = none) (c : Cond κ) :
    t.apply c =
      if category ∈ c.specificCategories then t.perform c (handle c) else t.rebuild c := by
  have hmem : category ∈ categories c ↔ category ∈ c.specificCategories := by
    rw [categories]
    split
    · rfl
    · simp [Cond.categories, hany]
  rw [apply_eq_perform, action]
  split
  · next handler hfound =>
    obtain ⟨found, hfound, hhandler⟩ := List.exists_of_findSome?_eq_some hfound
    have heq : found = category := by
      by_contra hne
      rw [hother found hne] at hhandler
      cases hhandler
    rw [heq, hhandle] at hhandler
    rw [if_pos (hmem.mp (heq ▸ hfound)), Option.some.inj hhandler]
  · next hnone =>
    rw [if_neg, perform]
    intro hspecific
    rw [List.findSome?_eq_none_iff.mp hnone category (hmem.mpr hspecific)] at hhandle
    cases hhandle

private theorem Transformation.rebuild_compound {t : Transformation κ} {j : Junction}
    {operands : List (Cond κ)} {f : Cond κ → Except TraversalError (Cond κ)} (hsome : operands ≠ [])
    (h : ∀ operand ∈ operands, t.apply operand = some <$> f operand) :
    t.rebuild (.compound j operands) = (fun others ↦ some (j.make others)) <$> operands.mapM f := by
  rw [rebuild, mapM_eq_map_mapM h]
  cases hothers : operands.mapM f with
  | error e => rfl
  | ok others =>
    have hlength := (mapM_eq_ok_iff.mp hothers).length_eq
    have hnonempty : ¬others.isEmpty = true := by
      rw [List.isEmpty_iff]
      rintro rfl
      exact hsome (List.length_eq_zero_iff.mp hlength)
    change Except.ok (if ((others.map some).filterMap id).isEmpty then none
      else some (j.make ((others.map some).filterMap id))) = _
    rw [List.filterMap_map, Function.id_comp, List.filterMap_some, if_neg hnonempty]
    rfl

namespace Pass

variable {pass : Pass} {t : Transformation κ} {c : Cond κ}

private theorem category_ne_any (pass : Pass) : pass.category ≠ .any := by
  cases pass <;> exact nofun

private theorem category_mem_compound_iff {j : Junction} {operands : List (Cond κ)} :
    pass.category ∈ (Cond.compound j operands).specificCategories ↔ pass ≠ .negation := by
  change pass.category ∈ j.kind.categories ↔ _
  cases pass <;> cases j <;> decide

private theorem category_mem_negation_iff {operand : Cond κ} :
    pass.category ∈ (Cond.negation operand).specificCategories ↔ pass = .negation := by
  change pass.category ∈ Kind.not.categories ↔ _
  cases pass <;> decide

private theorem category_notMem_of_leaf (hc : c.isCompound = false) :
    pass.category ∉ c.specificCategories := by
  cases c with
  | fixed truth =>
    change pass.category ∉ Kind.fixed.categories
    cases pass <;> decide
  | test key t =>
    have hitem := t.isItem_kind
    change pass.category ∉ t.kind.categories
    cases pass <;> revert hitem <;> cases t.kind <;> decide
  | custom leaf =>
    change pass.category ∉ [Category.custom]
    cases pass <;> decide
  | negation operand => cases hc
  | compound j operands => cases hc

private theorem run_leaf (pass : Pass) (hc : c.isCompound = false) : pass.run c = .ok (some c) := by
  cases c with
  | fixed truth => cases pass <;> simp [run, Cond.merge, Cond.pushNegations]
  | test key t => cases pass <;> simp [run, Cond.merge, Cond.pushNegations]
  | custom leaf => cases pass <;> simp [run, Cond.merge, Cond.pushNegations]
  | negation operand => cases hc
  | compound j operands => cases hc

/-! ## Calls -/

/-- Merging in the second condition goes on with the first one: with what a negation negates, or
with an operand of a compound. -/
inductive MergingCall : Cond κ → Cond κ → Prop
  | negated (operand : Cond κ) : MergingCall operand (.negation operand)
  | operand {j : Junction} {operands : List (Cond κ)} {c : Cond κ} (h : c ∈ operands) :
    MergingCall c (.compound j operands)

/-- Running the pass on the second condition goes on with the first one. -/
def Calls : Pass → Cond κ → Cond κ → Prop
  | factoring => Cond.FactoringCall
  | merging => MergingCall
  | negation => Cond.NegationCall

/-- No pass goes on for ever. -/
theorem wellFounded_calls (pass : Pass) : WellFounded (pass.Calls (κ := κ)) := by
  cases pass with
  | factoring => exact Cond.wellFounded_factoringCall
  | merging =>
    apply Subrelation.wf _ Cond.wellFounded_factoringCall
    intro d c hcall
    cases hcall with
    | negated => exact .negated d
    | operand h => exact .operand h
  | negation => exact Cond.wellFounded_negationCall

/-- A pass on a condition that can be built goes on with such conditions. -/
theorem Calls.reachable {d : Cond κ} (h : pass.Calls d c) (hc : c.Reachable) : d.Reachable := by
  have hinvariant := Cond.Reachable.invariant (κ := κ)
  cases pass with
  | factoring =>
    cases h with
    | negated => exact hinvariant.negated hc
    | operand hmem => exact hinvariant.operand hc d hmem
    | shorter hshorter =>
      refine hinvariant.pullOutShared? (.make _ fun factored hmem ↦ ?_) hshorter
      obtain ⟨operand, hoperand, rfl⟩ := List.mem_map.mp hmem
      exact hinvariant.factor (hinvariant.operand hc operand hoperand)
  | merging =>
    cases h with
    | negated => exact hinvariant.negated hc
    | operand hmem => exact hinvariant.operand hc d hmem
  | negation =>
    cases h with
    | operand hmem => exact hinvariant.operand hc d hmem
    | pushed => exact hinvariant.negated_junction hc

/-! ## Answers of handlers -/

private theorem answer_negation {operand : Cond κ}
    (h : ∀ d, pass.Calls d (.negation operand) → t.apply d = pass.run d) :
    pass.answer t (.negation operand) = pass.run (.negation operand) := by
  cases pass with
  | factoring =>
    have hoperand := h operand (.negated operand)
    rw [answer, if_neg (by rw [category_mem_negation_iff]; decide), Transformation.rebuild,
      hoperand, run, run, Cond.factor_negation]
    rfl
  | merging =>
    have hoperand := h operand (.negated operand)
    rw [answer, if_neg (by rw [category_mem_negation_iff]; decide), Transformation.rebuild,
      hoperand]
    rfl
  | negation =>
    rw [answer, if_pos (by rw [category_mem_negation_iff]), run]
    cases operand with
    | compound j operands =>
      rw [Cond.pushNegations]
      exact h _ (.pushed j operands)
    | test key u =>
      rw [Cond.pushNegations]
      exact if_pos u.isItem_kind
    | fixed _ | custom _ | negation _ =>
      rw [Cond.pushNegations_negation_other]
      · rfl
      · rintro key u ⟨⟩
      · rintro j operands ⟨⟩

private theorem answer_compound {j : Junction} {operands : List (Cond κ)} (hsome : operands ≠ [])
    (h : ∀ d, pass.Calls d (.compound j operands) → t.apply d = pass.run d) :
    pass.answer t (.compound j operands) = pass.run (.compound j operands) := by
  cases pass with
  | factoring =>
    have hrebuilt := Transformation.rebuild_compound (j := j) (f := fun c ↦ .ok c.factor) hsome
      fun operand hmem ↦ h operand (.operand hmem)
    rw [mapM_eq_ok_map fun _ _ ↦ rfl] at hrebuilt
    rw [answer, if_pos (by rw [category_mem_compound_iff]; decide), respond, hrebuilt, run,
      Cond.factor_compound]
    change (match Cond.pullOutShared? (j.make (operands.map Cond.factor)) with
      | some shorter => t.apply shorter
      | none => .ok (some (j.make (operands.map Cond.factor)))) = _
    cases hshorter : Cond.pullOutShared? (j.make (operands.map Cond.factor)) with
    | none => rfl
    | some shorter => exact h shorter (.shorter hshorter)
  | merging =>
    have hrebuilt := Transformation.rebuild_compound (j := j) (f := fun c ↦ .ok c.merge) hsome
      fun operand hmem ↦ h operand (.operand hmem)
    rw [mapM_eq_ok_map fun _ _ ↦ rfl] at hrebuilt
    rw [answer, if_pos (by rw [category_mem_compound_iff]; decide), respond, hrebuilt, run,
      Cond.merge, Cond.mergeAll_eq_map]
    exact congrArg (some <$> ·) (Cond.mergeNamed_eq _)
  | negation =>
    have hrebuilt := Transformation.rebuild_compound (j := j) hsome
      fun operand hmem ↦ h operand (.operand hmem)
    rw [answer, if_neg (by rw [category_mem_compound_iff]; decide), hrebuilt, run,
      Cond.pushNegations, Cond.pushNegationsAll_eq_mapM]
    cases operands.mapM Cond.pushNegations <;> rfl

/-- Where a transformation makes of the conditions that a pass goes on with what the pass makes of
them, the handler of the pass and rebuilding do so with the condition itself. -/
theorem answer_eq_run (hc : c.Reachable) (h : ∀ d, pass.Calls d c → t.apply d = pass.run d) :
    pass.answer t c = pass.run c := by
  induction c using Cond.leafInduction with
  | leaf c hleaf =>
    rw [answer, if_neg (category_notMem_of_leaf hleaf), Transformation.rebuild_eq_self hleaf,
      run_leaf pass hleaf]
  | negation operand _ => exact answer_negation h
  | compound j operands _ => exact answer_compound hc.everywhere_isNormal.self.ne_nil h

/-! ## Transformations of passes -/

/-- The transformation whose handler makes of the conditions of a pass's category what the pass
makes of them. -/
def transformation (pass : Pass) : Transformation κ :=
  .single pass.category fun c ↦ .done (pass.run c)

private theorem apply_transformation (hc : c.Reachable) :
    pass.transformation.apply c = pass.run c := by
  -- Where there is a handler, it runs the pass; elsewhere rebuilding goes on as the pass does.
  induction c using pass.wellFounded_calls.induction with
  | _ c ih =>
    have happly := Transformation.apply_eq_of_handler (t := pass.transformation (κ := κ))
      pass.category_ne_any (if_pos rfl) (fun _ hne ↦ if_neg hne) c
    rw [happly]
    split
    · rfl
    · next hrebuilt =>
      have hanswer := answer_eq_run hc fun d hcall ↦ ih d hcall (hcall.reachable hc)
      rwa [answer, if_neg hrebuilt] at hanswer

/-- For each pass there is a transformation that its handler belongs to. -/
theorem belongsTo_transformation (pass : Pass) :
    pass.BelongsTo (pass.transformation (κ := κ)) where
  handled := by
    refine ⟨_, if_pos rfl, fun c hc hmem ↦ ?_⟩
    have hanswer : pass.answer pass.transformation c = pass.run c :=
      answer_eq_run hc fun d hcall ↦ apply_transformation (hcall.reachable hc)
    rw [answer, if_pos hmem] at hanswer
    rw [hanswer]
  unhandled _ hne := if_neg hne

/-- Whatever transformation the handler of a pass belongs to, it makes of a condition that can be
built what the pass makes of it. -/
theorem BelongsTo.apply_eq_run (h : pass.BelongsTo t) (hc : c.Reachable) :
    t.apply c = pass.run c := by
  obtain ⟨handle, hhandle, hresponds⟩ := h.handled
  -- The handler calls the transformation again, with conditions that need not be parts of `c`:
  -- the induction is on the calls of the pass.
  induction c using pass.wellFounded_calls.induction with
  | _ c ih =>
    have happly := Transformation.apply_eq_of_handler pass.category_ne_any hhandle h.unhandled c
    rw [← answer_eq_run hc fun d hcall ↦ ih d hcall (hcall.reachable hc), answer, happly]
    split
    · next hmem =>
      rw [hresponds c hc hmem]
      rfl
    · rfl

/-- Whatever transformation the handler of factoring or merging belongs to, it neither fails nor
drops a condition that can be built. -/
theorem BelongsTo.exists_apply_eq_ok (h : pass.BelongsTo t) (hpass : pass ≠ .negation)
    (hc : c.Reachable) : ∃ d, t.apply c = .ok (some d) := by
  rw [h.apply_eq_run hc]
  cases pass with
  | factoring => exact ⟨c.factor, rfl⟩
  | merging => exact ⟨c.merge, rfl⟩
  | negation => exact absurd rfl hpass

end Pass

end Criteria
