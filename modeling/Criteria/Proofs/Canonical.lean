import Mathlib.Data.Set.Defs
import Criteria.Proofs.Matching
import Criteria.Proofs.NormalForm

/-!
# What a junction is made of

A junction depends on its operands only through the set of the conditions that they contribute. Main
statement: lists of operands that contribute the same, up to equality, make equal junctions; only
the absorbing constant can be made in several ways.
-/

namespace Criteria

variable {κ : Type} [CustomCondition κ]

/-! ## Equal conditions -/

namespace Cond

/-- The negations of equal conditions are equal. -/
theorem beq_not {c d : Cond κ} (h : (c == d) = true) : (c.not == d.not) = true := by
  rw [beq_def] at h ⊢
  -- A negation gives back what it negates, so that the equality of the parts is needed as well.
  suffices equal c d = true ∧ equal c.not d.not = true from this.2
  refine equal_induction ?_ ?_ ?_ ?_ ?_ h
  · exact fun _ ↦ ⟨equal_refl _, equal_refl _⟩
  · intro key t u htest
    have hequal := equal_test (κ := κ) key htest
    exact ⟨hequal, hequal⟩
  · exact fun hleaf ↦ ⟨hleaf, hleaf⟩
  · exact fun hoperand ↦ ⟨hoperand.1, hoperand.1⟩
  · intro j as bs _ hpairs
    have hequal := equal_compound j hpairs
    exact ⟨hequal, hequal⟩

/-- What equals a test is a test of the same field. -/
theorem exists_test_of_beq {key : RecordKey} {t : Test} {c : Cond κ}
    (h : (test key t == c) = true) : ∃ u, c = test key u ∧ (t == u) = true := by
  rw [beq_def] at h
  cases c with
  | test other u =>
    rw [equal, Bool.and_eq_true, beq_iff_eq] at h
    obtain ⟨rfl, htest⟩ := h
    exact ⟨u, rfl, htest⟩
  | _ => exact absurd h Bool.false_ne_true

/-- What equals a custom condition is an equal custom condition. -/
theorem exists_custom_of_beq {a : κ} {c : Cond κ} (h : (custom a == c) = true) :
    ∃ b, c = custom b ∧ CustomCondition.equal a b = true := by
  rw [beq_def] at h
  cases c with
  | custom b => exact ⟨b, rfl, h⟩
  | _ => exact absurd h Bool.false_ne_true

/-- What equals a negation negates an equal condition. -/
theorem exists_negation_of_beq {a c : Cond κ} (h : (negation a == c) = true) :
    ∃ b, c = negation b ∧ (a == b) = true := by
  rw [beq_def] at h
  cases c with
  | negation b => exact ⟨b, rfl, (beq_def a b).trans h⟩
  | _ => exact absurd h Bool.false_ne_true

/-- What equals a compound joins operands that pair up with its own in the same way. -/
theorem exists_pairUp_of_beq {j : Junction} {as : List (Cond κ)} {c : Cond κ}
    (h : (compound j as == c) = true) : ∃ bs, c = compound j bs ∧ pairUp as bs = true := by
  rw [beq_def] at h
  cases c with
  | compound i bs =>
    rw [equal, Bool.and_eq_true, beq_iff_eq] at h
    obtain ⟨rfl, hpairs⟩ := h
    exact ⟨bs, rfl, hpairs⟩
  | _ => exact absurd h Bool.false_ne_true

/-- No condition equals its negation. -/
theorem not_beq_not (c : Cond κ) : (c == c.not) = false := by
  have hnegation (c : Cond κ) : equal c (negation c) = false ∧ equal (negation c) c = false := by
    induction c with
    | negation operand ih => exact ⟨ih.1, ih.2⟩
    | _ => exact ⟨rfl, rfl⟩
  rw [beq_def]
  cases c with
  | fixed truth => cases truth <;> rfl
  | negation operand => exact (hnegation operand).2
  | _ => rfl

variable [LawfulCustomCondition κ]

/-- Compounds of different operands are equal exactly if they join the same sets in the same way. -/
theorem beq_compound_iff {i j : Junction} {as bs : List (Cond κ)}
    (has : as.Pairwise fun earlier later ↦ (earlier == later) = false) :
    (compound i as == compound j bs) = true ↔
      i = j ∧ as.length = bs.length ∧ ∀ a ∈ as, ∃ b ∈ bs, (b == a) = true := by
  rw [beq_def, equal, Bool.and_eq_true, beq_iff_eq,
    pairUp_iff_map_perm fun a _ ↦ a.exchangeable]
  apply and_congr_right
  intro _
  constructor
  · intro hperm
    refine ⟨by simpa using hperm.length_eq, fun a ha ↦ ?_⟩
    obtain ⟨b, hb, hab⟩ := List.mem_map.mp (hperm.mem_iff.mp (List.mem_map_of_mem ha))
    refine ⟨b, hb, ?_⟩
    rw [beq_def, hab]
    exact equal_refl a
  · rintro ⟨hlength, hpartner⟩
    refine OrderedSet.map_perm_of_forall_exists ?_ has hlength hpartner
    exact fun {a b} hab ↦ (a.exchangeable).equal_eq ((beq_def a b).symm.trans hab)

private theorem exists_compound_of_beq {j : Junction} {as : List (Cond κ)} {c : Cond κ}
    (h : (compound j as == c) = true) :
    ∃ bs, c = compound j bs ∧ ∀ a ∈ as, ∃ b ∈ bs, (b == a) = true := by
  obtain ⟨bs, rfl, hpairs⟩ := exists_pairUp_of_beq h
  refine ⟨bs, rfl, fun a ha ↦ ?_⟩
  obtain ⟨b, hb, hab⟩ := exists_partner hpairs ha
  exact ⟨b, hb, BEq.symm ((beq_def a b).trans hab)⟩

private theorem beq_compound_of_beq (j : Junction) {s t : OrderedSet (Cond κ)}
    (h : (s == t) = true) :
    (compound j s.toList == compound j t.toList) = true := by
  obtain ⟨hsize, hcontains⟩ := OrderedSet.beq_iff.mp h
  exact (beq_compound_iff s.distinct).mpr
    ⟨rfl, hsize, fun a ha ↦ OrderedSet.contains_iff.mp (hcontains a ha)⟩

end Cond

namespace Junction

/-! ## How building ends -/

/-- Without any different operands the neutral constant is built. -/
theorem make_eq_neutral {j : Junction} {operands : List (Cond κ)}
    (h : (j.flatten operands).toList = []) : j.make operands = .fixed j.neutral := by
  simp only [make, h]

/-- A single different operand is built as it is. -/
theorem make_eq_only {j : Junction} {operands : List (Cond κ)} {c : Cond κ}
    (h : (j.flatten operands).toList = [c]) : j.make operands = c := by
  simp only [make, h]

/-- Several different operands that do not decide the junction are joined. -/
theorem make_eq_compound {j : Junction} {operands : List (Cond κ)}
    (hseveral : 2 ≤ (j.flatten operands).toList.length)
    (hdecided : j.isDecided (j.flatten operands) = false) :
    j.make operands = .compound j (j.flatten operands).toList := by
  refine j.make_cases (motive := fun c ↦ c = .compound j (j.flatten operands).toList) operands
    ?_ ?_ ?_ ?_
  · intro hnil
    simp [hnil] at hseveral
  · intro c hsingle
    simp [hsingle] at hseveral
  · intro h
    exact absurd h (Bool.eq_false_iff.mp hdecided)
  · exact fun _ _ ↦ rfl

/-- The absorbing constant is built exactly if the different operands decide the junction. -/
theorem make_eq_absorbing_iff {j : Junction} {operands : List (Cond κ)} :
    j.make operands = .fixed j.absorbing ↔ j.isDecided (j.flatten operands) = true := by
  refine j.make_cases (motive := fun c ↦ c = .fixed j.absorbing ↔ _) operands ?_ ?_ ?_ ?_
  · intro hnil
    have hundecided : j.isDecided (j.flatten operands) = false := by
      rw [isDecided, isContradictory, OrderedSet.contains, hnil]
      rfl
    simp [hundecided, j.neutral_ne_absorbing]
  · intro c hsingle
    -- A single condition is not its own negation.
    have hdecided : j.isDecided (j.flatten operands) = (c == .fixed j.absorbing) := by
      simp [isDecided, isContradictory, OrderedSet.contains, hsingle, c.not_beq_not]
    rw [hdecided]
    exact ⟨fun h ↦ h ▸ beq_self_eq_true _, fun h ↦ Cond.beq_fixed_iff.mp h⟩
  · exact fun h ↦ iff_of_true rfl h
  · intro _ hundecided
    simp [hundecided]

/-- Unless it is the absorbing constant, what is built of operands in normal form contributes the
different operands as they stand. -/
theorem parts_make {j : Junction} {operands : List (Cond κ)}
    (h : ∀ operand ∈ operands, operand.IsNormal) (hne : j.make operands ≠ .fixed j.absorbing) :
    j.parts (j.make operands) = (j.flatten operands).toList := by
  refine j.make_cases (motive := fun c ↦ c ≠ .fixed j.absorbing → j.parts c = _) operands
    ?_ ?_ ?_ ?_ hne
  · intro hnil _
    simp [parts, hnil]
  · intro c hsingle _
    obtain ⟨operand, hmem, hpart⟩ :=
      exists_mem_parts_of_mem_flatten (hsingle ▸ List.mem_singleton_self c)
    obtain ⟨hneutral, hnested⟩ := not_reducible_of_mem_parts (h operand hmem) hpart
    rcases j.parts_cases c with ⟨hc, -⟩ | ⟨inner, hc, -⟩ | hc
    · exact absurd hc hneutral
    · exact absurd hc (hnested inner)
    · rw [hc, hsingle]
  · intro _ habsorbing
    exact absurd rfl habsorbing
  · intro _ _ _
    simp [parts]

/-! ## What operands contribute -/

/-- The conditions that operands contribute to a junction, up to equality. The neutral constant
contributes nothing, and an operand that is a junction of the same kind contributes its own
operands. -/
def joined (j : Junction) (operands : List (Cond κ)) : Set (Cond κ) :=
  {c | ∃ operand ∈ operands, operand ≠ .fixed j.neutral ∧
    ((∃ inner, operand = .compound j inner ∧ ∃ part ∈ inner, (part == c) = true) ∨
      (∀ inner, operand ≠ .compound j inner) ∧ (operand == c) = true)}

/-- What operands contribute equals one of their parts. -/
theorem mem_joined_iff {j : Junction} {operands : List (Cond κ)} {c : Cond κ} :
    c ∈ j.joined operands ↔
      ∃ operand ∈ operands, ∃ part ∈ j.parts operand, (part == c) = true := by
  apply exists_congr
  intro operand
  apply and_congr_right
  intro _
  cases operand with
  | fixed truth => by_cases h : truth = j.neutral <;> simp [parts, h]
  | compound i inner => by_cases h : i = j <;> simp [parts, h]
  | test key t => simp [parts]
  | custom leaf => simp [parts]
  | negation operand => simp [parts]

private theorem mem_joined_iff_exists {j : Junction} {operands : List (Cond κ)} {c : Cond κ} :
    c ∈ j.joined operands ↔ ∃ operand ∈ operands, c ∈ j.joined [operand] := by
  simp only [mem_joined_iff, List.mem_singleton, exists_eq_left]

/-- The order of the operands, repeated operands and neutral ones do not change what is
contributed. -/
theorem joined_eq_of_mem_iff {j : Junction} {xs ys : List (Cond κ)}
    (h : ∀ c, c ≠ .fixed j.neutral → (c ∈ xs ↔ c ∈ ys)) : j.joined xs = j.joined ys := by
  apply Set.ext
  intro c
  apply exists_congr
  intro operand
  rw [and_left_comm, and_left_comm (a := operand ∈ ys)]
  exact and_congr_right fun hneutral ↦ and_congr_left' (h operand hneutral)

private theorem joined_compound_cons {j : Junction} {inner : List (Cond κ)}
    (h : (Cond.compound j inner).IsNormal) (operands : List (Cond κ)) :
    j.joined (.compound j inner :: operands) = j.joined (inner ++ operands) := by
  apply Set.ext
  intro c
  rw [mem_joined_iff, mem_joined_iff]
  simp only [List.mem_cons, List.mem_append, or_and_right, exists_or, exists_eq_left]
  have hcompound : j.parts (.compound j inner) = inner := if_pos rfl
  rw [hcompound]
  apply or_congr_left
  apply exists_congr
  intro part
  apply and_congr_right
  intro hmem
  rw [NormalOperands.parts_eq h hmem]
  simp only [List.mem_singleton, exists_eq_left]

variable [LawfulCustomCondition κ]

/-- What operands contribute is what the set of different operands contains. -/
theorem mem_joined_iff_contains {j : Junction} {operands : List (Cond κ)} {c : Cond κ} :
    c ∈ j.joined operands ↔ (j.flatten operands).contains c = true := by
  rw [mem_joined_iff, flatten, OrderedSet.contains_ofList, List.any_flatMap, List.any_eq_true]
  simp only [List.any_eq_true]

/-- Equal operands contribute the same. -/
theorem joined_congr {j : Junction} {x y : Cond κ} (h : (x == y) = true) :
    j.joined [x] = j.joined [y] := by
  have hforward {x y : Cond κ} (hxy : (x == y) = true) {c : Cond κ} (hc : c ∈ j.joined [x]) :
      c ∈ j.joined [y] := by
    obtain ⟨_, hmem, hneutral, hparts⟩ := hc
    obtain rfl := List.mem_singleton.mp hmem
    refine ⟨y, List.mem_singleton_self y, ?_, ?_⟩
    · rintro rfl
      exact hneutral (Cond.beq_fixed_iff.mp hxy)
    · rcases hparts with ⟨as, rfl, a, ha, hac⟩ | ⟨hcompound, hxc⟩
      · obtain ⟨bs, rfl, hpartner⟩ := Cond.exists_compound_of_beq hxy
        obtain ⟨b, hb, hba⟩ := hpartner a ha
        exact .inl ⟨bs, rfl, b, hb, BEq.trans hba hac⟩
      · refine .inr ⟨?_, BEq.trans (BEq.symm hxy) hxc⟩
        rintro bs rfl
        obtain ⟨as, rfl, -⟩ := Cond.exists_compound_of_beq (BEq.symm hxy)
        exact hcompound as rfl
  exact Set.ext fun c ↦ ⟨hforward h, hforward (BEq.symm h)⟩

/-- Matching operands contribute the same. -/
theorem joined_eq_of_matching {j : Junction} {xs ys : List (Cond κ)} (h : Matching xs ys) :
    j.joined xs = j.joined ys := by
  apply Set.ext
  intro c
  rw [mem_joined_iff_exists, mem_joined_iff_exists]
  constructor
  · rintro ⟨x, hx, hxc⟩
    obtain ⟨y, hy, hxy⟩ := h.left x hx
    exact ⟨y, hy, joined_congr hxy ▸ hxc⟩
  · rintro ⟨y, hy, hyc⟩
    obtain ⟨x, hx, hxy⟩ := h.right y hy
    exact ⟨x, hx, joined_congr hxy ▸ hyc⟩

/-- Whether a condition has its negation in a set depends on what the set contains. -/
theorem isContradictory_iff {s : OrderedSet (Cond κ)} : isContradictory s = true ↔
    ∃ x, s.contains x = true ∧ ∃ y, s.contains y = true ∧ (y == x.not) = true := by
  rw [isContradictory, List.any_eq_true]
  constructor
  · rintro ⟨x, hx, hnot⟩
    exact ⟨x, OrderedSet.contains_iff.mpr ⟨x, hx, beq_self_eq_true x⟩, x.not, hnot,
      beq_self_eq_true _⟩
  · rintro ⟨x, hx, y, hy, hnot⟩
    obtain ⟨a, ha, hax⟩ := OrderedSet.contains_iff.mp hx
    obtain ⟨b, hb, hby⟩ := OrderedSet.contains_iff.mp hy
    refine ⟨a, ha, OrderedSet.contains_iff.mpr ⟨b, hb, ?_⟩⟩
    exact BEq.trans hby (BEq.trans hnot (BEq.symm (Cond.beq_not hax)))

private theorem isDecided_congr {j : Junction} {s t : OrderedSet (Cond κ)}
    (h : ∀ a, s.contains a = t.contains a) : j.isDecided s = j.isDecided t := by
  rw [isDecided, isDecided, h]
  congr 1
  rw [Bool.eq_iff_iff, isContradictory_iff, isContradictory_iff]
  simp only [h]

/-! ## What is built of them -/

/-- Lists of operands that contribute the same make equal junctions. -/
theorem beq_make_of_joined_eq {j : Junction} {xs ys : List (Cond κ)}
    (h : j.joined xs = j.joined ys) : (j.make xs == j.make ys) = true := by
  have hcontains (c : Cond κ) : (j.flatten xs).contains c = (j.flatten ys).contains c := by
    rw [Bool.eq_iff_iff, ← mem_joined_iff_contains, ← mem_joined_iff_contains, h]
  have hbeq := OrderedSet.beq_of_contains_eq hcontains
  have hlength : (j.flatten xs).toList.length = (j.flatten ys).toList.length :=
    (OrderedSet.beq_iff.mp hbeq).1
  refine j.make_cases (motive := fun c ↦ (c == j.make ys) = true) xs ?_ ?_ ?_ ?_
  · intro hnil
    have hys : (j.flatten ys).toList = [] := by
      rw [hnil] at hlength
      exact List.eq_nil_of_length_eq_zero hlength.symm
    rw [make_eq_neutral hys]
    exact beq_self_eq_true _
  · intro c hsingle
    obtain ⟨d, hys⟩ : ∃ d, (j.flatten ys).toList = [d] := by
      rw [hsingle] at hlength
      exact List.length_eq_one_iff.mp hlength.symm
    rw [make_eq_only hys]
    simpa [OrderedSet.contains, hsingle, hys] using (hcontains d).symm
  · intro hdecided
    rw [isDecided_congr hcontains] at hdecided
    rw [make_eq_absorbing_iff.mpr hdecided]
    exact beq_self_eq_true _
  · intro hseveral hundecided
    rw [isDecided_congr hcontains] at hundecided
    rw [make_eq_compound (hlength ▸ hseveral) hundecided]
    exact Cond.beq_compound_of_beq j hbeq

/-- Junctions of matching operands are equal. -/
theorem beq_make_of_matching {j : Junction} {xs ys : List (Cond κ)} (h : Matching xs ys) :
    (j.make xs == j.make ys) = true :=
  beq_make_of_joined_eq (joined_eq_of_matching h)

/-- Unless it is the absorbing constant, what is built of operands in normal form contributes what
they contribute. -/
theorem joined_make {j : Junction} {operands : List (Cond κ)}
    (h : ∀ operand ∈ operands, operand.IsNormal) (hne : j.make operands ≠ .fixed j.absorbing) :
    j.joined [j.make operands] = j.joined operands := by
  apply Set.ext
  intro c
  apply Iff.trans _ mem_joined_iff_contains.symm
  rw [OrderedSet.contains_iff, mem_joined_iff]
  simp only [List.mem_singleton, exists_eq_left, parts_make h hne]

/-- What is built depends only on what the operands contribute, and so neither on their order nor on
repeated or neutral operands nor on whether some of them are grouped. It is the absorbing constant
exactly if this is contributed, or a condition and its negation are. Anything else that is built
determines what was contributed. -/
theorem make_canonical (j : Junction) {xs ys : List (Cond κ)} (hxs : ∀ x ∈ xs, x.Reachable)
    (hys : ∀ y ∈ ys, y.Reachable) :
    (j.joined xs = j.joined ys → (j.make xs == j.make ys) = true) ∧
      ((∀ c, c ≠ .fixed j.neutral → (c ∈ xs ↔ c ∈ ys)) → (j.make xs == j.make ys) = true) ∧
      (∀ inner, (Cond.compound j inner).Reachable →
        (j.make (.compound j inner :: xs) == j.make (inner ++ xs)) = true) ∧
      (j.make xs = .fixed j.absorbing ↔ .fixed j.absorbing ∈ j.joined xs ∨
        ∃ x ∈ j.joined xs, ∃ y ∈ j.joined xs, (y == x.not) = true) ∧
      ((j.make xs == j.make ys) = true → j.make xs ≠ .fixed j.absorbing →
        j.joined xs = j.joined ys) := by
  refine ⟨beq_make_of_joined_eq, ?_, ?_, ?_, ?_⟩
  · exact fun h ↦ beq_make_of_joined_eq (joined_eq_of_mem_iff h)
  · intro inner hinner
    exact beq_make_of_joined_eq (joined_compound_cons hinner.everywhere_isNormal.self xs)
  · simp only [make_eq_absorbing_iff, isDecided, Bool.or_eq_true, isContradictory_iff,
      mem_joined_iff_contains]
  · intro hbeq hxs_ne
    have hys_ne : j.make ys ≠ .fixed j.absorbing := by
      intro heq
      rw [heq] at hbeq
      exact hxs_ne (Cond.beq_fixed_iff.mp hbeq)
    calc j.joined xs
        = j.joined [j.make xs] :=
          (joined_make (fun x hx ↦ (hxs x hx).everywhere_isNormal.self) hxs_ne).symm
      _ = j.joined [j.make ys] := joined_congr hbeq
      _ = j.joined ys := joined_make (fun y hy ↦ (hys y hy).everywhere_isNormal.self) hys_ne

/-- Operands are regrouped, reordered, repeated and written with another scale, and a neutral one is
left out. -/
theorem make_canonical_regrouped : ∃ xs ys : List (Cond Tagged),
    xs = [.test ⟨"n", rfl⟩ (.equal (.number ⟨false, 5, 0⟩)), .fixed true,
      .and [.test ⟨"a", rfl⟩ .isTrue, .custom ⟨"t"⟩]] ∧
    ys = [.custom ⟨"t"⟩, .test ⟨"n", rfl⟩ (.equal (.number ⟨false, 50, 1⟩)),
      .test ⟨"a", rfl⟩ .isTrue, .custom ⟨"t"⟩] ∧
    (Junction.and.make xs == Junction.and.make ys) = true ∧
    Junction.and.make xs ≠ .fixed Junction.and.absorbing ∧
    Junction.and.joined xs = Junction.and.joined ys := by
  have hitem (key : RecordKey) {t : Test} (h : t.kind ≠ .oneOf) :
      (Cond.test key t : Cond Tagged).Reachable := .test key h
  refine ⟨_, _, rfl, rfl, ?equal, ?undecided,
    (make_canonical .and ?_ ?_).2.2.2.2 ?equal ?undecided⟩
  · decide +kernel
  · exact fun h ↦ absurd (Cond.beq_fixed_iff.mpr h) (by decide +kernel)
  · simp only [List.forall_mem_cons]
    exact ⟨hitem _ (by decide), .fixed _, .make_pair .and (hitem _ (by decide)) (.custom _),
      List.forall_mem_nil _⟩
  · simp only [List.forall_mem_cons]
    exact ⟨.custom _, hitem _ (by decide), hitem _ (by decide), .custom _, List.forall_mem_nil _⟩

end Junction

end Criteria
