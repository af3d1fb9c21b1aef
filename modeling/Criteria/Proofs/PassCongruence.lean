import Criteria.Pass
import Criteria.Proofs.Canonical

/-!
# Passes on equal conditions

Merging puts a test where the first test of its key stands and writes its values in the order and
the spelling in which they come first, and building renews the order of operands at every level. In
equal conditions all of this may differ, but not what contributes to a junction. Main statement:
merging makes equal conditions of equal ones, and pushing negations down makes equal conditions of
them or fails on both.
-/

namespace Criteria

variable {κ : Type} [CustomCondition κ]

/-! ## Tests of membership -/

namespace Cond

variable {key : RecordKey} {values others : List Value}

/-- Without any values, no value is among them. -/
theorem memberOf_eq_fixed (h : (OrderedSet.ofList values).toList = []) :
    (memberOf key values : Cond κ) = fixed false := by
  simp only [memberOf, h]

/-- Membership among one value is equality with it. -/
theorem memberOf_eq_equal {v : Value} (h : (OrderedSet.ofList values).toList = [v]) :
    (memberOf key values : Cond κ) = test key (.equal v) := by
  simp only [memberOf, h]

/-- Membership among several values is tested with the set of them. -/
theorem memberOf_eq_oneOf (h : 2 ≤ (OrderedSet.ofList values).toList.length) :
    (memberOf key values : Cond κ) = test key (.oneOf (.ofList values)) := by
  refine memberOf_cases (motive := fun c ↦ c = _) key values ?_ ?_ ?_
  · intro hnil
    simp [hnil] at h
  · intro v hsingle
    simp [hsingle] at h
  · exact fun _ ↦ rfl

private theorem beq_memberOf (h : Matching values others) :
    (memberOf key values == (memberOf key others : Cond κ)) = true := by
  have hbeq := h.beq_ofList
  have hlength : (OrderedSet.ofList values).toList.length =
      (OrderedSet.ofList others).toList.length := (OrderedSet.beq_iff.mp hbeq).1
  rw [beq_def]
  refine memberOf_cases (motive := fun c ↦ equal c (memberOf key others) = true) key values
    ?_ ?_ ?_
  · intro hnil
    rw [hnil] at hlength
    rw [memberOf_eq_fixed (List.eq_nil_of_length_eq_zero hlength.symm)]
    exact equal_refl _
  · intro v hsingle
    rw [hsingle] at hlength
    obtain ⟨w, hothers⟩ := List.length_eq_one_iff.mp hlength.symm
    obtain ⟨u, hu, hvu⟩ := (Matching.of_beq hbeq).left v (hsingle ▸ List.mem_singleton_self v)
    rw [hothers, List.mem_singleton] at hu
    rw [memberOf_eq_equal hothers]
    exact equal_test key (hu ▸ hvu)
  · intro hseveral
    rw [memberOf_eq_oneOf (hlength ▸ hseveral)]
    exact equal_test key hbeq

private theorem exists_membership?_of_beq {c d : Cond κ} (h : (c == d) = true)
    (hc : c.membership? = some (key, values)) :
    ∃ others, d.membership? = some (key, others) ∧ Matching values others := by
  unfold membership? at hc
  split at hc
  · next v =>
    cases hc
    obtain ⟨u, rfl, htest⟩ := exists_test_of_beq h
    cases u with
    | equal w =>
      have hvalue : (v == w) = true := htest
      exact ⟨[w], rfl, by simpa using hvalue, by simpa using hvalue⟩
    | _ => exact absurd htest Bool.false_ne_true
  · next s =>
    cases hc
    obtain ⟨u, rfl, htest⟩ := exists_test_of_beq h
    cases u with
    | oneOf t => exact ⟨t.toList, rfl, .of_beq htest⟩
    | _ => exact absurd htest Bool.false_ne_true
  · cases hc

end Cond

namespace Junction

open Cond

variable {j : Junction} {key : RecordKey} {values others : List Value}

private theorem exists_mergeable?_of_beq {c d : Cond κ} (h : (c == d) = true)
    (hc : j.mergeable? c = some (key, values)) :
    ∃ others, j.mergeable? d = some (key, others) ∧ Matching values others := by
  cases j with
  | or => exact exists_membership?_of_beq h hc
  | and =>
    obtain ⟨operand, rfl, hmembership⟩ := exists_negation_of_mergeable?_and hc
    obtain ⟨other, rfl, hother⟩ := exists_negation_of_beq h
    exact exists_membership?_of_beq hother hmembership

private theorem beq_merged (h : Matching values others) :
    (j.merged key values == (j.merged key others : Cond κ)) = true := by
  cases j with
  | or => exact beq_memberOf h
  | and => exact beq_not (beq_memberOf h)

/-! ## Operands -/

variable [LawfulCustomCondition κ] {as bs : List (Cond κ)}

private theorem mergeable?_eq_none_of_beq {c d : Cond κ} (h : (c == d) = true)
    (hc : j.mergeable? c = none) : j.mergeable? d = none := by
  cases hd : j.mergeable? d with
  | none => rfl
  | some found =>
    obtain ⟨others, hsome, -⟩ := exists_mergeable?_of_beq (BEq.symm h) hd
    rw [hc] at hsome
    cases hsome

private theorem mergeable?_key_congr {c d : Cond κ} (h : (c == d) = true) :
    (j.mergeable? c).map Prod.fst = (j.mergeable? d).map Prod.fst := by
  cases hc : j.mergeable? c with
  | none => rw [mergeable?_eq_none_of_beq h hc]
  | some found =>
    obtain ⟨others, hd, -⟩ := exists_mergeable?_of_beq h hc
    rw [hd]
    rfl

private theorem mergeableKeys_perm (h : pairUp as bs = true) :
    (j.mergeableKeys as).Perm (j.mergeableKeys bs) := by
  have hkeys (operands : List (Cond κ)) : j.mergeableKeys operands =
      (operands.map fun c ↦ (j.mergeable? c).map Prod.fst).filterMap id := by
    rw [List.filterMap_map]
    rfl
  rw [hkeys, hkeys]
  apply List.Perm.filterMap
  exact map_perm_of_pairUp (fun a _ b hab ↦ mergeable?_key_congr ((beq_def a b).trans hab)) h

private theorem matching_valuesOn (key : RecordKey) (h : Matching as bs) :
    Matching (j.valuesOn key as) (j.valuesOn key bs) := by
  refine h.flatMap fun a _ b hab ↦ ?_
  cases ha : j.mergeable? a with
  | none =>
    rw [mergeable?_eq_none_of_beq hab ha]
    exact ⟨nofun, nofun⟩
  | some found =>
    obtain ⟨k, values⟩ := found
    obtain ⟨others, hb, hmatching⟩ := exists_mergeable?_of_beq hab ha
    rw [hb]
    dsimp only
    split
    · exact hmatching
    · exact ⟨nofun, nofun⟩

/-- Matching operands match after merging. -/
theorem matching_mergeOperands (h : Matching as bs) :
    Matching (j.mergeOperands as) (j.mergeOperands bs) := by
  have hleft {as bs : List (Cond κ)} (h : Matching as bs) (x : Cond κ)
      (hx : x ∈ j.mergeOperands as) : ∃ y ∈ j.mergeOperands bs, (x == y) = true := by
    obtain ⟨hkept, hnone⟩ | ⟨a, ha, key, values, hmergeable, hnew, rfl⟩ := mem_mergeFrom_iff.mp hx
    · obtain ⟨y, hy, hxy⟩ := h.left x hkept
      exact ⟨y, mem_mergeFrom_iff.mpr (.inl ⟨hy, mergeable?_eq_none_of_beq hxy hnone⟩), hxy⟩
    · obtain ⟨b, hb, hab⟩ := h.left a ha
      obtain ⟨others, hothers, -⟩ := exists_mergeable?_of_beq hab hmergeable
      exact ⟨_, mem_mergeFrom_iff.mpr (.inr ⟨b, hb, key, others, hothers, hnew, rfl⟩),
        beq_merged (matching_valuesOn key h)⟩
  refine ⟨hleft h, fun y hy ↦ ?_⟩
  obtain ⟨x, hx, hyx⟩ := hleft h.symm y hy
  exact ⟨x, hx, BEq.symm hyx⟩

end Junction

namespace Cond

/-! ## Merging and pushing negations down -/

variable [LawfulCustomCondition κ]

/-- Equal conditions are equal after merging their operands. -/
theorem beq_mergeOperands {c d : Cond κ} (h : (c == d) = true) :
    (c.mergeOperands == d.mergeOperands) = true := by
  cases c with
  | compound j as =>
    obtain ⟨bs, rfl, hpairs⟩ := exists_pairUp_of_beq h
    have hnodup := (Junction.mergeableKeys_perm (j := j) hpairs).nodup_iff
    simp only [mergeOperands, hnodup]
    split
    · exact h
    · exact Junction.beq_make_of_matching (Junction.matching_mergeOperands (.of_pairUp hpairs))
  | _ =>
    cases d with
    | compound j bs => rw [beq_def] at h; exact absurd h Bool.false_ne_true
    | _ => exact h

/-- Equal conditions are equal after merging all their equalities. -/
theorem beq_merge {c d : Cond κ} (h : (c == d) = true) : (c.merge == d.merge) = true := by
  rw [beq_def] at h
  refine equal_induction (motive := fun c d ↦ (c.merge == d.merge) = true) ?_ ?_ ?_ ?_ ?_ h
  · exact fun truth ↦ beq_self_eq_true _
  · exact fun key t u htest ↦ (beq_def _ _).trans (equal_test key htest)
  · exact fun hleaf ↦ (beq_def _ _).trans hleaf
  · exact fun hoperand ↦ beq_not hoperand
  · intro j as bs hoperands hpairs
    rw [merge, merge, mergeAll_eq_map, mergeAll_eq_map]
    apply beq_mergeOperands
    apply Junction.beq_make_of_matching
    refine (Matching.of_pairUp hpairs).map fun a ha b hab ↦ hoperands a ha b ?_
    rwa [← beq_def]

/-- Where the negations of a condition can be pushed down, so can those of every equal one, and the
results are equal. -/
theorem exists_pushNegations_of_beq {c d c' : Cond κ} (h : (c == d) = true)
    (hc : c.pushNegations = .ok c') : ∃ d', d.pushNegations = .ok d' ∧ (c' == d') = true := by
  induction c using pushNegations_induction generalizing d c' with
  | fixed truth =>
    rw [pushNegations] at hc
    cases hc
    obtain rfl := beq_fixed_iff.mp (BEq.symm h)
    exact ⟨_, by rw [pushNegations], h⟩
  | test key t =>
    rw [pushNegations] at hc
    cases hc
    obtain ⟨u, rfl, -⟩ := exists_test_of_beq h
    exact ⟨_, by rw [pushNegations], h⟩
  | custom leaf =>
    rw [pushNegations] at hc
    cases hc
    obtain ⟨other, rfl, -⟩ := exists_custom_of_beq h
    exact ⟨_, by rw [pushNegations], h⟩
  | compound j as ih =>
    obtain ⟨bs, rfl, hpairs⟩ := exists_pairUp_of_beq h
    rw [pushNegations, pushNegationsAll_eq_mapM] at hc ⊢
    obtain ⟨as', has, rfl⟩ := map_eq_ok_iff.mp hc
    obtain ⟨bs', hbs, hmatching⟩ :=
      (Matching.of_pairUp hpairs).mapM (fun a ha b hab a' ↦ ih a ha hab) has
    rw [hbs]
    exact ⟨_, rfl, Junction.beq_make_of_matching hmatching⟩
  | negatedTest key t =>
    rw [pushNegations] at hc
    cases hc
    obtain ⟨operand, rfl, hoperand⟩ := exists_negation_of_beq h
    obtain ⟨u, rfl, -⟩ := exists_test_of_beq hoperand
    exact ⟨_, by rw [pushNegations], h⟩
  | negatedCompound j as ih =>
    obtain ⟨operand, rfl, hoperand⟩ := exists_negation_of_beq h
    obtain ⟨bs, rfl, hpairs⟩ := exists_pairUp_of_beq hoperand
    rw [pushNegations] at hc ⊢
    have hnot := (Matching.of_pairUp hpairs).map fun a _ b ↦ beq_not (c := a) (d := b)
    exact ih (Junction.beq_make_of_matching hnot) hc
  | negatedOther operand htest hcompound =>
    rw [pushNegations_negation_other htest hcompound] at hc
    cases hc

end Cond

namespace Pass

/-- Merging makes equal conditions of equal ones. Pushing negations down fails on both of two equal
conditions or makes equal conditions of them. -/
theorem merging_negation_congr [LawfulCustomCondition κ] {c d : Cond κ} (h : (c == d) = true) :
    (∃ c' d', merging.run c = .ok (some c') ∧ merging.run d = .ok (some d') ∧
      (c' == d') = true) ∧
    ((∃ e e', negation.run c = .error e ∧ negation.run d = .error e') ∨
      ∃ c' d', negation.run c = .ok (some c') ∧ negation.run d = .ok (some d') ∧
        (c' == d') = true) := by
  refine ⟨⟨_, _, rfl, rfl, Cond.beq_merge h⟩, ?_⟩
  simp only [run]
  cases hc : c.pushNegations with
  | ok c' =>
    obtain ⟨d', hd, hbeq⟩ := Cond.exists_pushNegations_of_beq h hc
    rw [hd]
    exact .inr ⟨c', d', rfl, rfl, hbeq⟩
  | error e =>
    cases hd : d.pushNegations with
    | ok d' =>
      obtain ⟨c', hok, -⟩ := Cond.exists_pushNegations_of_beq (BEq.symm h) hd
      rw [hc] at hok
      cases hok
    | error e' => exact .inl ⟨e, e', rfl, rfl⟩

/-- Operands at two depths, members, the scale of a number and the case of a tag differ, and tests
of two keys are merged. Of the conditions with a custom condition that is negated once, the
negations of neither can be pushed down. -/
theorem merging_negation_congr_rearranged : ∃ c d c' d' : Cond Marked,
    c = .or [.test ⟨"n", rfl⟩ (.equal (.number ⟨false, 5, 0⟩)),
      .not (.and [.not (.memberOf ⟨"a", rfl⟩ [.string "x", .string "y"]),
        .not (.test ⟨"a", rfl⟩ (.equal (.string "z"))), .not (.custom ⟨.loose, "Ab"⟩)]),
      .memberOf ⟨"n", rfl⟩ [.number ⟨false, 7, 0⟩, .number ⟨false, 5, 0⟩]] ∧
    d = .or [.memberOf ⟨"n", rfl⟩ [.number ⟨false, 50, 1⟩, .number ⟨false, 7, 0⟩],
      .not (.and [.not (.custom ⟨.loose, "aB"⟩), .not (.test ⟨"a", rfl⟩ (.equal (.string "z"))),
        .not (.memberOf ⟨"a", rfl⟩ [.string "y", .string "x"])]),
      .test ⟨"n", rfl⟩ (.equal (.number ⟨false, 500, 2⟩))] ∧
    c' = .and [.test ⟨"b", rfl⟩ .isNull, .not (.custom ⟨.bare, "v"⟩)] ∧
    d' = .and [.not (.custom ⟨.bare, "w"⟩), .test ⟨"b", rfl⟩ .isNull] ∧
    (∃ e f, merging.run c = .ok (some e) ∧ merging.run d = .ok (some f) ∧ (e == f) = true) ∧
    (∃ e f, negation.run c = .ok (some e) ∧ negation.run d = .ok (some f) ∧ (e == f) = true) ∧
    ∃ e f, negation.run c' = .error e ∧ negation.run d' = .error f := by
  have hsucceeds {c d : Cond Marked} (h : (c == d) = true)
      (hc : (negation.run c).toOption.isSome = true) :
      ∃ e f, negation.run c = .ok (some e) ∧ negation.run d = .ok (some f) ∧
        (e == f) = true := by
    refine (merging_negation_congr h).2.resolve_left ?_
    rintro ⟨e, e', he, -⟩
    rw [he] at hc
    cases hc
  have hfails {c d : Cond Marked} (h : (c == d) = true)
      (hc : (negation.run c).toOption.isSome = false) :
      ∃ e f, negation.run c = .error e ∧ negation.run d = .error f := by
    refine (merging_negation_congr h).2.resolve_right ?_
    rintro ⟨e, f, he, -⟩
    rw [he] at hc
    cases hc
  refine ⟨_, _, _, _, rfl, rfl, rfl, rfl, (merging_negation_congr ?equal).1, hsucceeds ?equal ?_,
    hfails ?_ ?_⟩
  · decide +kernel
  · decide +kernel
  · decide +kernel
  · decide +kernel

end Pass

end Criteria
