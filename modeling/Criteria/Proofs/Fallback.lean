import Criteria.Dispatch
import Criteria.Proofs.Omission

/-!
# Falling back to wider categories

Where a category of conditions has no handler, the handler for the next wider category stands in. A
dispatch and a transformation look for their handlers in a list of categories; asking one category
after the other comes to the same. Main statement: for any handlers, a dispatch answers a condition
by the first handler on the way from its own category to that of all conditions, and fails if there
is none; a transformation with handlers for the same categories runs its handler for the same one,
except that a compound for which only the category of all conditions may have a handler is rebuilt
from its transformed operands.
-/

namespace Criteria

variable {κ ρ : Type} [CustomCondition κ]

/-! ## From one category to the next -/

namespace Category

/-- The next wider category, whose handler stands in for a missing one. -/
def next? : Category → Option Category
  | kind .and | kind .or => some junction
  | kind .not | junction => some compound
  | kind .isTrue | kind .isNull | itemWithOperand => some item
  | kind .fixed | custom | compound | item => some any
  | kind _ => some itemWithOperand
  | any => none

/-- How many categories at most are wider than one. -/
def height : Category → Nat
  | kind _ => 3
  | junction | itemWithOperand => 2
  | custom | compound | item => 1
  | any => 0

private theorem height_lt_of_next? {category wider : Category} (h : category.next? = some wider) :
    wider.height < category.height := by
  cases category with
  | kind k => cases k <;> cases h <;> decide
  | any => cases h
  | _ => cases h; decide

/-- A category and the wider ones after it, up to that of all conditions. -/
def chain (category : Category) : List Category :=
  match _h : category.next? with
  | some wider => category :: wider.chain
  | none => [category]
termination_by category.height
decreasing_by exact height_lt_of_next? _h

private theorem chain_of_next?_eq_some {category wider : Category}
    (h : category.next? = some wider) :
    category.chain = category :: wider.chain := by
  rw [chain]
  split
  · next other hother => rw [Option.some.inj (h.symm.trans hother)]
  · next hnone => exact nomatch h.symm.trans hnone

private theorem chain_of_next?_eq_none {category : Category} (h : category.next? = none) :
    category.chain = [category] := by
  rw [chain]
  split
  · next wider hwider => exact nomatch h.symm.trans hwider
  · rfl

/-- Asks about a category and, as long as there is no answer, about the next wider one. -/
def ask {α : Type} (answer? : Category → Option α) (otherwise : α) (category : Category) : α :=
  match answer? category with
  | some answer => answer
  | none =>
    match _h : category.next? with
    | some wider => wider.ask answer? otherwise
    | none => otherwise
termination_by category.height
decreasing_by exact height_lt_of_next? _h

/-- Asking about one category after the other comes to the first answer on the way. -/
theorem ask_eq_findSome? {α : Type} (answer? : Category → Option α) (otherwise : α)
    (category : Category) :
    category.ask answer? otherwise = (category.chain.findSome? answer?).getD otherwise := by
  induction category using chain.induct with
  | case1 category wider hnext ih =>
    rw [ask, chain_of_next?_eq_some hnext, List.findSome?_cons]
    cases answer? category with
    | some answer => rfl
    | none =>
      dsimp only
      split
      · next other hother =>
        rw [← Option.some.inj (hnext.symm.trans hother)]
        exact ih
      · next hnone => exact nomatch hnext.symm.trans hnone
  | case2 category hnext =>
    rw [ask, chain_of_next?_eq_none hnext, List.findSome?_singleton]
    cases answer? category with
    | some answer => rfl
    | none =>
      dsimp only
      split
      · next wider hwider => exact nomatch hnext.symm.trans hwider
      · rfl

end Category

private theorem Kind.categories_append_any (kind : Kind) :
    kind.categories ++ [.any] = (Category.kind kind).chain := by
  have hany : Category.any.chain = [.any] := Category.chain_of_next?_eq_none rfl
  have hcompound : Category.compound.chain = [.compound, .any] := by
    rw [Category.chain_of_next?_eq_some rfl, hany]
  have hitem : Category.item.chain = [.item, .any] := by
    rw [Category.chain_of_next?_eq_some rfl, hany]
  cases kind with
  | not => rw [Category.chain_of_next?_eq_some rfl, hcompound]; rfl
  | and | or =>
    rw [Category.chain_of_next?_eq_some rfl, Category.chain_of_next?_eq_some rfl, hcompound]
    rfl
  | isTrue | isNull => rw [Category.chain_of_next?_eq_some rfl, hitem]; rfl
  | fixed => rw [Category.chain_of_next?_eq_some rfl, hany]; rfl
  | _ =>
    rw [Category.chain_of_next?_eq_some rfl, Category.chain_of_next?_eq_some rfl, hitem]
    rfl

namespace Cond

/-- The narrowest category of a condition. -/
def category (c : Cond κ) : Category :=
  match c.kind? with
  | some kind => .kind kind
  | none => .custom

/-- The categories of a condition are those on the way from its narrowest one. -/
theorem categories_eq_chain (c : Cond κ) : c.categories = c.category.chain := by
  rw [categories, specificCategories, category]
  cases c.kind? with
  | some kind => exact kind.categories_append_any
  | none =>
    have hnext : Category.custom.next? = some .any := rfl
    rw [Category.chain_of_next?_eq_some hnext, Category.chain_of_next?_eq_none rfl]
    rfl

private theorem specificCategories_of_isCompound {c : Cond κ} (h : c.isCompound = true) :
    ∃ narrower, c.specificCategories = narrower ++ [.compound] ∧ Category.compound ∉ narrower := by
  cases c with
  | negation operand => exact ⟨[.kind .not], rfl, by decide⟩
  | compound j operands =>
    cases j with
    | and => exact ⟨[.kind .and, .junction], rfl, by decide⟩
    | or => exact ⟨[.kind .or, .junction], rfl, by decide⟩
  | fixed truth => cases h
  | test key u => cases h
  | custom leaf => cases h

private theorem compound_notMem_categories {c : Cond κ} (h : c.isCompound = false) :
    .compound ∉ c.categories := by
  cases c with
  | fixed truth => simp [categories, specificCategories, kind?, Kind.categories]
  | custom leaf => simp [categories, specificCategories, kind?]
  | test key u =>
    have hitem := u.isItem_kind
    rw [categories, specificCategories, kind?]
    dsimp only
    revert hitem
    cases u.kind <;> decide
  | negation operand => cases h
  | compound j operands => cases h

/-- The narrowest of some categories that a condition belongs to. -/
def narrowest? (c : Cond κ) (among : Category → Bool) : Option Category :=
  c.category.chain.find? among

private theorem find?_specificCategories (c : Cond κ) (among : Category → Bool) :
    c.specificCategories.find? among = (c.narrowest? among).filter (· ≠ .any) := by
  have hspecific : .any ∉ c.specificCategories := by
    rw [specificCategories]
    split
    · next kind _ => cases kind <;> decide
    · decide
  rw [narrowest?, ← categories_eq_chain, categories, List.find?_append]
  cases hfind : c.specificCategories.find? among with
  | some found =>
    have hne : found ≠ .any := fun heq ↦ hspecific (heq ▸ List.mem_of_find?_eq_some hfind)
    rw [Option.some_or, Option.filter_some, if_pos (decide_eq_true hne)]
  | none =>
    rw [Option.none_or, List.find?_singleton]
    split <;> rfl

end Cond

/-! ## Dispatches -/

namespace Dispatch

/-- A dispatch asks for the handlers of the categories of a condition one after the other. -/
theorem apply_eq_ask (d : Dispatch κ ρ) (c : Cond κ) :
    d.apply c = c.category.ask (fun category ↦ (d.handler? category).map (· c))
      (.error (.noHandler d.name c.label)) := by
  have hanswers : c.categories.findSome? (fun category ↦ (d.handler? category).map (· c)) =
      (c.categories.findSome? d.handler?).map (· c) := List.map_findSome?.symm
  rw [Category.ask_eq_findSome?, ← Cond.categories_eq_chain, hanswers, apply]
  cases c.categories.findSome? d.handler? with
  | some handle => rfl
  | none => rfl

/-- A dispatch answers by the handler for the narrowest category that has one. -/
theorem apply_eq_narrowest (d : Dispatch κ ρ) (c : Cond κ) :
    d.apply c = match (c.narrowest? fun other ↦ (d.handler? other).isSome).bind d.handler? with
      | some handle => handle c
      | none => .error (.noHandler d.name c.label) := by
  rw [apply, Cond.categories_eq_chain, findSome?_eq_bind_find?]
  rfl

end Dispatch

/-! ## Transformations -/

namespace Transformation

/-- What becomes of a condition whose operands are transformed: a negation or a compound is built
anew from what is left of them. -/
def rebuild (t : Transformation κ) : Cond κ → Except TraversalError (Option (Cond κ))
  | .negation operand => Option.map Cond.not <$> t.apply operand
  | .compound j operands => do
    let results ← operands.mapM t.apply
    let kept := results.filterMap id
    return if kept.isEmpty then none else some (j.make kept)
  | c => .ok (some c)

/-- A condition without operands is kept. -/
theorem rebuild_eq_self {t : Transformation κ} {c : Cond κ} (h : c.isCompound = false) :
    t.rebuild c = .ok (some c) := by
  cases c with
  | negation operand => cases h
  | compound j operands => cases h
  | _ => rfl

/-- Carries out what a handler says about a condition. -/
def perform (t : Transformation κ) (c : Cond κ) : Action κ → Except TraversalError (Option (Cond κ))
  | .done result => result
  | .descend => t.rebuild c

/-- What the handler for a category says. Without one for the category of compounds, the operands
are transformed. -/
def response? (t : Transformation κ) (c : Cond κ) (category : Category) : Option (Action κ) :=
  match t.handler? category with
  | some handle => some (handle c)
  | none => if category = .compound then some .descend else none

variable {t : Transformation κ} {c : Cond κ}

/-- A transformation carries out what its handler says. -/
theorem apply_eq_perform (t : Transformation κ) (c : Cond κ) :
    t.apply c = t.perform c (t.action c) := by
  cases c using Cond.leafInduction with
  | leaf c hc =>
    rw [apply_eq_applyLeaf hc, applyLeaf]
    cases t.action c with
    | done result => rfl
    | descend => exact (rebuild_eq_self hc).symm
  | negation operand _ =>
    rw [apply]
    cases t.action (.negation operand) <;> rfl
  | compound j operands _ =>
    rw [apply, applyAll_eq_mapM]
    cases t.action (.compound j operands) with
    | done result => rfl
    | descend =>
      rw [perform, rebuild]
      cases operands.mapM t.apply <;> rfl

/-- What the handler for a category, or for the next wider one that has a handler, makes of a
condition. What none of them is for is kept. -/
def answer (t : Transformation κ) (category : Category) (c : Cond κ) :
    Except TraversalError (Option (Cond κ)) :=
  t.perform c (category.ask (t.response? c) (.done (.ok (some c))))

private theorem findSome?_response? {categories : List Category} (h : .compound ∉ categories) :
    categories.findSome? (t.response? c) = (categories.findSome? t.handler?).map (· c) := by
  rw [List.map_findSome?]
  apply findSome?_congr
  intro category hmem
  rw [response?, Function.comp_apply]
  cases t.handler? category with
  | some handle => rfl
  | none => exact if_neg fun (heq : category = .compound) ↦ h (heq ▸ hmem)

/-- A transformation asks for the handlers of the categories of a condition one after the other. -/
theorem apply_eq_answer (t : Transformation κ) (c : Cond κ) :
    t.apply c = t.answer c.category c := by
  rw [apply_eq_perform, answer, Category.ask_eq_findSome?, ← Cond.categories_eq_chain, action]
  cases hc : c.isCompound with
  | true =>
    obtain ⟨narrower, hcategories, hnarrower⟩ := Cond.specificCategories_of_isCompound hc
    rw [categories, if_pos hc, Cond.categories, hcategories, List.findSome?_append,
      List.findSome?_append, List.findSome?_append, findSome?_response? hnarrower]
    cases narrower.findSome? t.handler? with
    | some handle => rfl
    | none => cases hcompound : t.handler? .compound <;> simp [response?, hcompound]
  | false =>
    rw [categories, if_neg (ne_true_of_eq_false hc),
      findSome?_response? (Cond.compound_notMem_categories hc)]
    cases c.categories.findSome? t.handler? with
    | some handle => rfl
    | none => exact rebuild_eq_self hc

/-- The dispatch that answers for every single kind of conditions as the transformation does. -/
def forwarding (t : Transformation κ) (name : String) : Dispatch κ (Option (Cond κ)) where
  name
  handler?
    | .kind kind => some (t.answer (.kind kind))
    | .custom => some (t.answer .custom)
    | _ => none

/-- A dispatch that forwards every kind of conditions to a transformation transforms. -/
theorem apply_forwarding (t : Transformation κ) (name : String) (c : Cond κ) :
    (t.forwarding name).apply c = t.apply c := by
  rw [apply_eq_answer, Dispatch.apply_eq_ask, Category.ask, Cond.category]
  cases c.kind? <;> rfl

private theorem find?_categories (c : Cond κ) (among : Category → Bool) :
    (categories c).find? among =
      (c.narrowest? among).filter fun category ↦ !c.isCompound || category ≠ .any := by
  rw [categories]
  cases c.isCompound with
  | true => exact c.find?_specificCategories among
  | false =>
    have hall : (c.narrowest? among).filter (fun _ ↦ true) = c.narrowest? among := by
      cases c.narrowest? among <;> rfl
    exact (congrArg (List.find? among) c.categories_eq_chain).trans hall.symm

/-- A transformation runs the handler for the narrowest category that has one. -/
theorem apply_eq_narrowest (t : Transformation κ) (c : Cond κ) :
    t.apply c = match ((c.narrowest? fun category ↦ (t.handler? category).isSome).filter
        fun category ↦ !c.isCompound || category ≠ .any).bind t.handler? with
      | some respond => t.perform c (respond c)
      | none => t.rebuild c := by
  rw [apply_eq_perform, action, findSome?_eq_bind_find?, find?_categories]
  generalize Option.bind _ t.handler? = handler?
  cases handler? with
  | some respond => rfl
  | none => rfl

end Transformation

/-! ## The handler that runs -/

/-- Whatever the handlers are, a dispatch answers by the first one on the way from the category of a
condition to that of all conditions, and fails by itself if there is none. With handlers for the
same categories, a transformation runs the one for the same category; but a compound with no handler
before that for all conditions is rebuilt from its transformed operands, and what has no handler and
no operands is kept. -/
theorem Dispatch.narrowest_handler_answers (handled : Category → Bool) (d : Dispatch κ ρ)
    (t : Transformation κ) (hd : ∀ category, (d.handler? category).isSome = handled category)
    (ht : ∀ category, (t.handler? category).isSome = handled category) (c : Cond κ) :
    (∀ category, c.narrowest? handled = some category → ∃ handle respond,
      d.handler? category = some handle ∧ t.handler? category = some respond ∧
        d.apply c = handle c ∧
        (c.isCompound = false ∨ category ≠ .any → t.apply c = t.perform c (respond c))) ∧
    (d.apply c = .error (.noHandler d.name c.label) ↔ c.narrowest? handled = none ∨
      ∃ category handle, c.narrowest? handled = some category ∧ d.handler? category = some handle ∧
        handle c = .error (.noHandler d.name c.label)) ∧
    (c.isCompound = true → c.narrowest? handled = none ∨ c.narrowest? handled = some .any →
      t.apply c = t.rebuild c) ∧
    (c.isCompound = false → c.narrowest? handled = none → t.apply c = .ok (some c)) ∧
    ∀ name, (t.forwarding name).apply c = t.apply c := by
  have hdispatch := d.apply_eq_narrowest c
  have htransform := t.apply_eq_narrowest c
  rw [funext hd] at hdispatch
  rw [funext ht] at htransform
  cases hfirst : c.narrowest? handled with
  | none =>
    rw [hfirst] at hdispatch htransform
    have hkept (hc : c.isCompound = false) : t.apply c = .ok (some c) :=
      htransform.trans (Transformation.rebuild_eq_self hc)
    exact ⟨fun _ h ↦ (nomatch h), iff_of_true hdispatch (.inl rfl), fun _ _ ↦ htransform,
      fun hc _ ↦ hkept hc, fun name ↦ t.apply_forwarding name c⟩
  | some category =>
    have hhandled : handled category = true := List.find?_some hfirst
    obtain ⟨handle, hhandle⟩ := Option.isSome_iff_exists.mp ((hd category).trans hhandled)
    obtain ⟨respond, hrespond⟩ := Option.isSome_iff_exists.mp ((ht category).trans hhandled)
    rw [hfirst, Option.bind_some, hhandle] at hdispatch
    rw [hfirst] at htransform
    refine ⟨?_, ?_, ?_, fun _ h ↦ (nomatch h), fun name ↦ t.apply_forwarding name c⟩
    · rintro _ ⟨⟩
      refine ⟨handle, respond, hhandle, hrespond, hdispatch, fun hruns ↦ ?_⟩
      have hkept : (!c.isCompound || category ≠ .any) = true := by
        obtain hruns | hruns := hruns <;> simp [hruns]
      rw [Option.filter_some, if_pos hkept, Option.bind_some, hrespond] at htransform
      exact htransform
    · -- The failure can only come from the handler itself.
      rw [hdispatch]
      grind
    · rintro hc (h | h)
      · cases h
      · obtain rfl := Option.some.inj h
        rw [hc] at htransform
        exact htransform

/-- With handlers for tests and for all conditions, the handler for tests is run for a comparison.
For its negation a dispatch falls back to the handler for all conditions, and a transformation
negates what the comparison becomes. -/
theorem Dispatch.narrowest_handler_answers_negation :
    ∃ (d : Dispatch Marked String) (t : Transformation Marked) (operand : Cond Marked),
      operand = .test ⟨"a", rfl⟩ (.equal (.string "x")) ∧
      d.apply operand = .ok "test" ∧ t.apply operand = .ok (some (.fixed true)) ∧
      d.apply (.negation operand) = .ok "other" ∧
      t.apply (.negation operand) = .ok (some (.fixed false)) ∧
      ∀ name, (t.forwarding name).apply (.negation operand) = t.apply (.negation operand) := by
  let handled : Category → Bool
    | .item | .any => true
    | _ => false
  let d : Dispatch Marked String :=
    { name := "d"
      handler?
        | .item => some fun _ ↦ .ok "test"
        | .any => some fun _ ↦ .ok "other"
        | _ => none }
  let t : Transformation Marked :=
    { handler?
        | .item => some fun _ ↦ .done (.ok (some (.fixed true)))
        | .any => some fun _ ↦ .done (.ok none)
        | _ => none }
  let operand : Cond Marked := .test ⟨"a", rfl⟩ (.equal (.string "x"))
  have hruns := narrowest_handler_answers handled d t
    (fun category ↦ by cases category <;> rfl) (fun category ↦ by cases category <;> rfl)
  have htest : operand.narrowest? handled = some .item := by
    rw [Cond.narrowest?, ← Cond.categories_eq_chain]
    rfl
  have hnegation : (Cond.negation operand).narrowest? handled = some .any := by
    rw [Cond.narrowest?, ← Cond.categories_eq_chain]
    rfl
  obtain ⟨_, _, ⟨⟩, ⟨⟩, hanswer, hresult⟩ := (hruns operand).1 .item htest
  have hoperand : t.apply operand = .ok (some (.fixed true)) := hresult (.inl rfl)
  obtain ⟨_, _, ⟨⟩, -, hother, -⟩ := (hruns (.negation operand)).1 .any hnegation
  have hrebuilt := (hruns (.negation operand)).2.2.1 rfl (.inr hnegation)
  rw [Transformation.rebuild, hoperand] at hrebuilt
  exact ⟨d, t, operand, rfl, hanswer, hoperand, hother, hrebuilt,
    (hruns (.negation operand)).2.2.2.2⟩

end Criteria
