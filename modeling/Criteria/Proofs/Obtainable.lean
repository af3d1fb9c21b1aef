import Criteria.Field
import Criteria.Transformation
import Criteria.Proofs.Acceptance
import Criteria.Proofs.NormalForm

/-!
# Conditions that can be obtained

A program obtains conditions from the functions named for them, from raw operands, on a named field,
as results of transformations and passes, and by taking conditions apart. Main statements: whatever
is obtained in one of these ways can be built, and all its nodes are in normal form.
-/

namespace Criteria

variable {κ : Type} [CustomCondition κ]

/-! ## Tests -/

namespace Cond

/-- The functions that put a test to a field, by what they build. -/
inductive BuiltTest : Cond κ → Prop
  | equalTo {key v c} (h : equalTo key v = .ok c) : BuiltTest c
  | greater {key v c} (h : greater key v = .ok c) : BuiltTest c
  | greaterOrEqual {key v c} (h : greaterOrEqual key v = .ok c) : BuiltTest c
  | less {key v c} (h : less key v = .ok c) : BuiltTest c
  | lessOrEqual {key v c} (h : lessOrEqual key v = .ok c) : BuiltTest c
  | isIn {key values c} (h : isIn key values = .ok c) : BuiltTest c
  | between {key low high c} (h : between key low high = .ok c) : BuiltTest c
  | containsSubstring {key part c} (h : containsSubstring key part = .ok c) : BuiltTest c
  | isTrue {key c} (h : isTrue key = .ok c) : BuiltTest c
  | isNull {key c} (h : isNull key = .ok c) : BuiltTest c

private theorem reachable_ofTest {key : String} {t : Test} {c : Cond κ} (h : ofTest key t = .ok c)
    (hkind : t.kind ≠ .oneOf) : c.Reachable := by
  obtain ⟨accepted, -, rfl⟩ := map_eq_ok_iff.mp h
  exact .test accepted hkind

/-- What the functions for tests build can be built. -/
theorem BuiltTest.reachable {c : Cond κ} (h : BuiltTest c) : c.Reachable := by
  cases h with
  | isIn h =>
    obtain ⟨accepted, -, rfl⟩ := map_eq_ok_iff.mp h
    exact .memberOf accepted _
  | equalTo h => exact reachable_ofTest h nofun
  | greater h => exact reachable_ofTest h nofun
  | greaterOrEqual h => exact reachable_ofTest h nofun
  | less h => exact reachable_ofTest h nofun
  | lessOrEqual h => exact reachable_ofTest h nofun
  | between h => exact reachable_ofTest h nofun
  | containsSubstring h => exact reachable_ofTest h nofun
  | isTrue h => exact reachable_ofTest h nofun
  | isNull h => exact reachable_ofTest h nofun

end Cond

/-! ## Raw operands -/

namespace Operand

mutual

/-- The conditions in an operand. -/
def conditions : Operand κ → List (Cond κ)
  | null => []
  | value _ => []
  | cond c => [c]
  | list items => conditionsAll items

/-- The conditions in several operands. -/
def conditionsAll : List (Operand κ) → List (Cond κ)
  | [] => []
  | item :: rest => conditions item ++ conditionsAll rest

end

private theorem conditionsAll_eq_flatMap (items : List (Operand κ)) :
    conditionsAll items = items.flatMap conditions := by
  induction items with
  | nil => rfl
  | cons item rest ih => rw [conditionsAll, ih, List.flatMap_cons]

private theorem conditionsAll_map_cond (cs : List (Cond κ)) :
    conditionsAll (cs.map .cond) = cs := by
  rw [conditionsAll_eq_flatMap, List.flatMap_map]
  exact List.flatMap_singleton' cs

end Operand

namespace Kind

private theorem reachable_or_mapM {α : Type} {items : List α}
    {build : α → Except BuildError (Cond κ)}
    (hbuild : ∀ item c, build item = .ok c → c.Reachable) {c : Cond κ}
    (h : .or <$> items.mapM build = .ok c) : c.Reachable := by
  obtain ⟨tests, htests, rfl⟩ := map_eq_ok_iff.mp h
  apply Cond.Reachable.make
  intro test hmem
  obtain ⟨item, -, hitem⟩ := exists_mem_of_mapM_eq_ok htests hmem
  exact hbuild item test hitem

/-- What a kind makes of operands can be built if the conditions in the operands can. -/
theorem reachable_make {kind : Kind} {operands : List (Operand κ)} {c : Cond κ}
    (hoperands : ∀ d ∈ Operand.conditionsAll operands, d.Reachable)
    (h : kind.make operands = .ok c) : c.Reachable := by
  obtain ⟨result, haccepts⟩ := exists_accepts_of_make h
  have hresult := (make_eq_of_accepts haccepts).symm.trans h
  cases haccepts with
  | not d =>
    cases hresult
    exact .not (hoperands d (List.mem_singleton_self d))
  | junction j cs =>
    cases hresult
    rw [Operand.conditionsAll_map_cond] at hoperands
    exact .make j hoperands
  | junctionOfList j cs =>
    cases hresult
    rw [Operand.conditionsAll, Operand.conditions, Operand.conditionsAll_map_cond,
      Operand.conditionsAll, List.append_nil] at hoperands
    exact .make j hoperands
  | fixed truth =>
    cases hresult
    exact .fixed truth
  | noOperand hkind key =>
    cases hresult
    exact .fixed false
  | isTrue key => exact Cond.BuiltTest.reachable (.isTrue hresult)
  | isNull key => exact Cond.BuiltTest.reachable (.isNull hresult)
  | comparison hbuild key values =>
    obtain ⟨t, hkind, rfl⟩ := exists_test_of_comparison? hbuild
    refine reachable_or_mapM (fun v c hc ↦ Cond.reachable_ofTest hc ?_) hresult
    rw [hkind v]
    rintro rfl
    cases hbuild
  | contains key parts =>
    exact reachable_or_mapM (fun part c hc ↦ Cond.reachable_ofTest (t := .contains part) hc nofun)
      hresult
  | oneOf key values => exact Cond.BuiltTest.reachable (.isIn hresult)
  | between key low high => exact Cond.BuiltTest.reachable (.between hresult)

end Kind

/-! ## Fields -/

namespace Field

/-- The questions about a field, by what they build. -/
inductive Asked (field : Field) : Cond κ → Prop
  | eq {v c} (h : field.eq v = .ok c) : Asked field c
  | ne {v c} (h : field.ne v = .ok c) : Asked field c
  | gt {v c} (h : field.gt v = .ok c) : Asked field c
  | ge {v c} (h : field.ge v = .ok c) : Asked field c
  | lt {v c} (h : field.lt v = .ok c) : Asked field c
  | le {v c} (h : field.le v = .ok c) : Asked field c
  | eqAny {values c} (h : field.eqAny values = .ok c) : Asked field c
  | isIn {values c} (h : field.isIn values = .ok c) : Asked field c
  | between {low high c} (h : field.between low high = .ok c) : Asked field c
  | contains {part c} (h : field.contains part = .ok c) : Asked field c
  | isTrue {c} (h : field.isTrue = .ok c) : Asked field c
  | isNull {c} (h : field.isNull = .ok c) : Asked field c

private theorem reachable_fieldMake {field : Field} {kind : Kind} {values : List Value} {c : Cond κ}
    (h : field.make kind values = .ok c) : c.Reachable := by
  refine Kind.reachable_make ?_ h
  intro d hd
  rw [Operand.conditionsAll_eq_flatMap, List.flatMap_cons, List.flatMap_map] at hd
  simp [Operand.conditions] at hd

/-- What is asked about a field can be built. -/
theorem Asked.reachable {field : Field} {c : Cond κ} (h : field.Asked c) : c.Reachable := by
  cases h with
  | eq h => exact reachable_fieldMake h
  | ne h => cases h
  | gt h => exact reachable_fieldMake h
  | ge h => exact reachable_fieldMake h
  | lt h => exact reachable_fieldMake h
  | le h => exact reachable_fieldMake h
  | eqAny h => exact reachable_fieldMake h
  | isIn h => exact Cond.BuiltTest.reachable (.isIn h)
  | between h => exact Cond.BuiltTest.reachable (.between h)
  | contains h => exact reachable_fieldMake h
  | isTrue h => exact Cond.BuiltTest.reachable (.isTrue h)
  | isNull h => exact Cond.BuiltTest.reachable (.isNull h)

end Field

/-! ## Transformations -/

namespace Transformation

private theorem applyLeaf_cases {t : Transformation κ} {c d : Cond κ}
    (h : t.applyLeaf c = .ok (some d)) :
    d = c ∨ t.action c = .done (.ok (some d)) := by
  rw [applyLeaf] at h
  split at h
  · next hdone =>
    rw [h] at hdone
    exact .inr hdone
  · cases h
    exact .inl rfl

/-- What transforming several conditions leaves are results for some of them. -/
theorem exists_mem_of_applyAll {t : Transformation κ} {operands kept : List (Cond κ)}
    (h : t.applyAll operands = .ok kept) {d : Cond κ} (hd : d ∈ kept) :
    ∃ operand ∈ operands, t.apply operand = .ok (some d) := by
  induction operands generalizing kept with
  | nil =>
    cases h
    cases hd
  | cons operand rest ih =>
    rw [applyAll] at h
    obtain ⟨first?, hfirst, h⟩ := bind_eq_ok_iff.mp h
    obtain ⟨others, hothers, h⟩ := bind_eq_ok_iff.mp h
    cases h
    rcases List.mem_append.mp hd with hd | hd
    · rw [Option.mem_toList] at hd
      rw [hd] at hfirst
      exact ⟨operand, List.mem_cons_self, hfirst⟩
    · obtain ⟨other, hmem, hother⟩ := ih hothers hd
      exact ⟨other, List.mem_cons_of_mem _ hmem, hother⟩

end Transformation

namespace Cond

/-- A transformation keeps an invariant that its handlers' answers have. -/
theorem Invariant.apply {P : Cond κ → Prop} (h : Invariant P) {t : Transformation κ}
    {c d : Cond κ} (hc : P c)
    (hanswer : ∀ node ∈ c.nodes, ∀ e, t.action node = .done (.ok (some e)) → P e)
    (hd : t.apply c = .ok (some d)) : P d := by
  induction c using Cond.leafInduction generalizing d with
  | leaf c hleaf =>
    rw [Transformation.apply_eq_applyLeaf hleaf] at hd
    rcases Transformation.applyLeaf_cases hd with rfl | hdone
    · exact hc
    · exact hanswer c (self_mem_nodes c) d hdone
  | negation operand ih =>
    rw [Transformation.apply] at hd
    split at hd
    · next hdone =>
      rw [hd] at hdone
      exact hanswer _ (self_mem_nodes _) d hdone
    · obtain ⟨result?, hresult, heq⟩ := map_eq_ok_iff.mp hd
      obtain ⟨e, rfl, rfl⟩ := Option.map_eq_some_iff.mp heq
      refine h.not (ih (h.negated hc) ?_ hresult)
      exact fun node hnode ↦ hanswer node (List.mem_cons_of_mem _ hnode)
  | compound j operands ih =>
    rw [Transformation.apply] at hd
    split at hd
    · next hdone =>
      rw [hd] at hdone
      exact hanswer _ (self_mem_nodes _) d hdone
    · obtain ⟨kept, hkept, heq⟩ := map_eq_ok_iff.mp hd
      split at heq
      · cases heq
      · cases heq
        apply h.make
        intro e he
        obtain ⟨operand, hmem, hresult⟩ := Transformation.exists_mem_of_applyAll hkept he
        refine ih operand hmem (h.operand hc operand hmem) ?_ hresult
        exact fun node hnode ↦
          hanswer node (mem_nodes_compound_iff.mpr (.inr ⟨operand, hmem, hnode⟩))

/-! ## All ways together -/

/-- The conditions that a program can obtain, also as parts of those it has obtained. A
transformation may answer for a node with whatever can be obtained. -/
inductive Obtainable : Cond κ → Prop
  | fixed (truth : Bool) : Obtainable (.fixed truth)
  | custom (leaf : κ) : Obtainable (.custom leaf)
  | not {c} (h : Obtainable c) : Obtainable c.not
  | and {operands} (h : ∀ c ∈ operands, Obtainable c) : Obtainable (.and operands)
  | or {operands} (h : ∀ c ∈ operands, Obtainable c) : Obtainable (.or operands)
  | join (j : Junction) {operands} (h : ∀ c ∈ operands, Obtainable c) :
    Obtainable (j.make operands)
  | test {c} (h : BuiltTest c) : Obtainable c
  | make {kind : Kind} {operands : List (Operand κ)} {c}
    (h : ∀ d ∈ Operand.conditionsAll operands, Obtainable d)
    (hmake : kind.make operands = .ok c) : Obtainable c
  | field {field : Field} {c} (h : field.Asked c) : Obtainable c
  | transformed {t : Transformation κ} {c d} (h : Obtainable c)
    (hanswer : ∀ node ∈ c.nodes, ∀ e, t.action node = .done (.ok (some e)) → Obtainable e)
    (hd : t.apply c = .ok (some d)) : Obtainable d
  | passed {pass : Pass} {c d} (h : Obtainable c) (hd : pass.run c = .ok (some d)) : Obtainable d
  | part {c node} (h : Obtainable c) (hnode : node ∈ c.nodes) : Obtainable node

/-- What can be obtained can be built. -/
theorem Obtainable.reachable {c : Cond κ} (h : Obtainable c) : c.Reachable := by
  induction h with
  | fixed truth => exact .fixed truth
  | custom leaf => exact .custom leaf
  | not _ ih => exact .not ih
  | and _ ih => exact .make .and ih
  | or _ ih => exact .make .or ih
  | join j _ ih => exact .make j ih
  | test h => exact h.reachable
  | make _ hmake ih => exact Kind.reachable_make ih hmake
  | field h => exact h.reachable
  | transformed _ _ hd ih ihanswer => exact Reachable.invariant.apply ih ihanswer hd
  | passed _ hd ih => exact Reachable.invariant.run ih hd
  | part _ hnode ih => exact ih.everywhere _ hnode

/-- The conditions that can be obtained are those that can be built. -/
theorem obtainable_iff_reachable {c : Cond κ} : c.Obtainable ↔ c.Reachable := by
  constructor
  · exact Obtainable.reachable
  · intro h
    induction h with
    | fixed truth => exact .fixed truth
    | custom leaf => exact .custom leaf
    | not _ ih => exact .not ih
    | make j _ ih => exact .join j ih
    | memberOf key values => exact .test (.isIn (isIn_name key values))
    | @test key t hkind =>
      have hkey := ofTest_name (κ := κ) key t
      apply Obtainable.test
      cases t with
      | equal v => exact .equalTo hkey
      | ordered relation v =>
        cases relation with
        | greater => exact .greater hkey
        | greaterOrEqual => exact .greaterOrEqual hkey
        | less => exact .less hkey
        | lessOrEqual => exact .lessOrEqual hkey
      | oneOf members => exact absurd rfl hkind
      | between low high => exact .between hkey
      | contains part => exact .containsSubstring hkey
      | isTrue => exact .isTrue hkey
      | isNull => exact .isNull hkey

/-- Every node of a condition that can be obtained is in normal form. A constant is only obtained as
a whole condition. -/
theorem Obtainable.normalForm {c : Cond κ} (h : c.Obtainable) :
    c.Everywhere IsNormal ∧ ∀ truth, .fixed truth ∈ c.nodes → c = .fixed truth := by
  have hnormal := h.reachable.everywhere_isNormal
  exact ⟨hnormal, fun truth ↦ eq_fixed_of_mem_nodes hnormal⟩

/-- A disjunction made of a list of operands, of which one is a disjunction with the other one among
its operands, is in normal form. -/
theorem Obtainable.normalForm_made : ∃ c : Cond Empty,
    Kind.or.make [.list [.cond (.test ⟨"a", rfl⟩ .isTrue),
      .cond (.or [.test ⟨"b", rfl⟩ .isNull, .test ⟨"a", rfl⟩ .isTrue])]] = .ok c ∧
      c.Everywhere IsNormal ∧ ∀ truth, .fixed truth ∈ c.nodes → c = .fixed truth := by
  have ha : (.test ⟨"a", rfl⟩ .isTrue : Cond Empty).Obtainable :=
    .test (.isTrue (ofTest_name ⟨"a", rfl⟩ .isTrue))
  have hb : (.test ⟨"b", rfl⟩ .isNull : Cond Empty).Obtainable :=
    .test (.isNull (ofTest_name ⟨"b", rfl⟩ .isNull))
  obtain ⟨c, hmake⟩ : ∃ c : Cond Empty, Kind.or.make [.list [.cond (.test ⟨"a", rfl⟩ .isTrue),
      .cond (.or [.test ⟨"b", rfl⟩ .isNull, .test ⟨"a", rfl⟩ .isTrue])]] = .ok c := ⟨_, rfl⟩
  refine ⟨c, hmake, Obtainable.normalForm (.make ?_ hmake)⟩
  simp only [Operand.conditionsAll, Operand.conditions, List.append_nil, List.singleton_append,
    List.forall_mem_cons]
  refine ⟨ha, .or ?_, List.forall_mem_nil _⟩
  simp only [List.forall_mem_cons]
  exact ⟨hb, ha, List.forall_mem_nil _⟩

end Cond

end Criteria
