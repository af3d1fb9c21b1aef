import Criteria.Cond.Text
import Criteria.Proofs.NormalForm
import Criteria.Proofs.Wording

/-!
# Reading a query

A query puts parentheses around what is negated and around junctions inside junctions, and uses the
word `AND` also between the bounds of a range. Where an operand ends is settled by what may follow
it: nothing, a blank or a parenthesis. Main statement: conditions with the same text are the same,
down to the order of their operands and the spelling of their values.
-/

namespace Criteria

open Text

/-- Every character of the key is an ASCII letter, a digit or an underscore. -/
def RecordKey.Alphanumeric (key : RecordKey) : Prop :=
  key.name.toList.all (fun c ↦ c.isAlphanum || c == '_') = true

/-- Whether a key is alphanumeric can be told. -/
instance (key : RecordKey) : Decidable key.Alphanumeric :=
  inferInstanceAs (Decidable (_ = true))

private theorem RecordKey.Alphanumeric.isWord {key : RecordKey} (h : key.Alphanumeric) :
    IsWord key.name.toList :=
  .of_all (by decide) h

/-! ## What may follow a junction -/

namespace Text

/-- A text that may follow a whole condition: nothing, or a closing parenthesis and a balanced
text. -/
inductive Closing : List Char → Prop
  | nil : Closing []
  | cons {rest : List Char} (h : Balanced rest) : Closing (')' :: rest)

variable {r : List Char}

private theorem Closing.continuation (h : Closing r) : Continuation r := by
  cases h with
  | nil => exact .nil
  | cons h => exact .cons (by decide) h

private theorem Closing.ne_blank (h : Closing r) (s : List Char) : r ≠ ' ' :: s := by
  rintro rfl
  cases h

end Text

namespace Junction

private theorem exists_separator_eq (j : Junction) :
    ∃ word, j.separator.toList = ' ' :: word ∧ Balanced word := by
  cases j with
  | and => exact ⟨"AND ".toList, rfl, .of_all (by decide)⟩
  | or => exact ⟨"OR ".toList, rfl, .of_all (by decide)⟩

private theorem balanced_separator (j : Junction) : Balanced j.separator.toList := by
  cases j with
  | and => exact .of_all (by decide)
  | or => exact .of_all (by decide)

private theorem continuation_separator (j : Junction) {r : List Char} (hr : Balanced r) :
    Continuation (j.separator.toList ++ r) := by
  obtain ⟨word, hseparator, hword⟩ := j.exists_separator_eq
  rw [hseparator]
  exact .cons (by decide) (hword.append hr)

private theorem not_separator_prefix (j : Junction) {r : List Char} (hr : Closing r) :
    ¬j.separator.toList <+: r := by
  obtain ⟨word, hseparator, -⟩ := j.exists_separator_eq
  rintro ⟨rest, hrest⟩
  rw [hseparator] at hrest
  exact hr.ne_blank _ hrest.symm

private theorem eq_of_separator_append_eq {i j : Junction} {r s : List Char}
    (h : i.separator.toList ++ r = j.separator.toList ++ s) : i = j := by
  cases i with
  | and =>
    cases j with
    | and => rfl
    | or => simp [separator] at h
  | or =>
    cases j with
    | and => simp [separator] at h
    | or => rfl

end Junction

namespace Cond

variable {κ : Type} [CustomCondition κ]

/-! ## Texts of conditions -/

/-- The text of a condition as an operand of a junction. -/
def operandText (c : Cond κ) : List Char :=
  if c.junction?.isSome then '(' :: (c.toText.toList ++ [')']) else c.toText.toList

private theorem toList_toText_compound (j : Junction) (operands : List (Cond κ)) :
    (compound j operands).toText.toList =
      j.separator.toList.intercalate (operands.map operandText) := by
  rw [toText, operandTexts_eq_map, String.toList_intercalate, List.map_map]
  congr 1
  apply List.map_congr_left
  intro operand _
  rw [Function.comp_apply, operandText]
  split
  · simp
  · rfl

private theorem toText_negation_append (operand : Cond κ) (r : List Char) :
    (negation operand).toText.toList ++ r =
      "NOT".toList ++ ' ' :: '(' :: (operand.toText.toList ++ ')' :: r) := by
  simp [toText]

private theorem operandText_compound_append (j : Junction) (operands : List (Cond κ))
    (r : List Char) :
    (compound j operands).operandText ++ r =
      '(' :: ((compound j operands).toText.toList ++ ')' :: r) := by
  change '(' :: ((compound j operands).toText.toList ++ [')']) ++ r = _
  rw [List.cons_append, List.append_assoc]
  rfl

private theorem operandText_of_junction?_eq_none {c : Cond κ} (h : c.junction? = none) :
    c.operandText = c.toText.toList := by
  rw [operandText, h]
  rfl

/-- A node whose text can be read: no constant and no custom condition, a test under an alphanumeric
key with a member if it is one of membership, or a junction of several operands. -/
def Legible : Cond κ → Prop
  | fixed _ | custom _ => False
  | test key t => key.Alphanumeric ∧ ∀ members, t = .oneOf members → members.toList ≠ []
  | negation _ => True
  | compound _ operands => 2 ≤ operands.length

private theorem balanced_operandText {c : Cond κ} (h : Balanced c.toText.toList) :
    Balanced c.operandText := by
  rw [operandText]
  split
  · exact .cons (by decide) (by decide) (h.append (.of_all (by decide)))
  · exact h

/-- The text of a legible condition is balanced. -/
theorem balanced_toText {c : Cond κ} (hc : c.Everywhere Legible) : Balanced c.toText.toList := by
  induction c with
  | fixed truth => exact hc.self.elim
  | custom leaf => exact hc.self.elim
  | test key t => exact t.balanced_toText hc.self.1.isWord
  | negation operand ih =>
    rw [← List.append_nil (negation operand).toText.toList, toText_negation_append]
    have hoperand := (ih (everywhere_negation.mp hc).2).append (.of_all (s := [')']) (by decide))
    exact (Balanced.of_all (s := "NOT (".toList) (by decide)).append hoperand
  | compound j operands ih =>
    rw [toList_toText_compound]
    apply j.balanced_separator.intercalate
    intro operand hmem
    exact balanced_operandText (ih operand hmem ((everywhere_compound.mp hc).2 operand hmem))

private theorem exists_toText_compound_append_eq {j : Junction} {operands : List (Cond κ)}
    (hc : (compound j operands).Everywhere Legible) {r : List Char} (hr : Balanced r) :
    ∃ operand ∈ operands, ∃ rest, Balanced rest ∧ (compound j operands).toText.toList ++ r =
      operand.operandText ++ (j.separator.toList ++ rest) := by
  obtain ⟨hself, hoperands⟩ := everywhere_compound.mp hc
  cases operands with
  | nil => cases hself
  | cons x others =>
    cases others with
    | nil => exact absurd hself (Nat.not_succ_le_self 1)
    | cons y ys =>
      have hothers : Balanced (j.separator.toList.intercalate ((y :: ys).map operandText)) :=
        j.balanced_separator.intercalate fun operand hmem ↦
          balanced_operandText (balanced_toText (hoperands operand (List.mem_cons_of_mem x hmem)))
      refine ⟨x, List.mem_cons_self, _, hothers.append hr, ?_⟩
      rw [toList_toText_compound, intercalate_cons_cons_append]

/-! ## Texts and what follows them -/

/-- The text of the condition as an operand and what follows it determine the condition. -/
def OperandReadable (c : Cond κ) : Prop :=
  ∀ d r s, d.Everywhere Legible → Continuation r → Continuation s →
    c.operandText ++ r = d.operandText ++ s → c = d ∧ r = s

/-- The text of the whole condition and what follows it determine the condition. -/
def Readable (c : Cond κ) : Prop :=
  ∀ d r s, d.Everywhere Legible → Closing r → Closing s →
    c.toText.toList ++ r = d.toText.toList ++ s → c = d ∧ r = s

private theorem OperandReadable.toText_ne_compound {c : Cond κ} (h : c.OperandReadable)
    {j : Junction} {operands : List (Cond κ)} (hd : (compound j operands).Everywhere Legible)
    {r s : List Char} (hr : Closing r) (hs : Closing s) :
    c.operandText ++ r ≠ (compound j operands).toText.toList ++ s := by
  intro heq
  obtain ⟨operand, hmem, rest, hrest, hfirst⟩ :=
    exists_toText_compound_append_eq hd hs.continuation.balanced
  have hoperand := (everywhere_compound.mp hd).2 operand hmem
  rw [hfirst] at heq
  have hafter := (h operand r _ hoperand hr.continuation (j.continuation_separator hrest) heq).2
  exact j.not_separator_prefix hr ⟨rest, hafter.symm⟩

/-- What is no junction can be read alone if it can be read as an operand. -/
theorem OperandReadable.readable {c : Cond κ} (hc : c.junction? = none) (h : c.OperandReadable) :
    c.Readable := by
  intro d r s hd hr hs heq
  rw [← operandText_of_junction?_eq_none hc] at heq
  cases d with
  | compound j operands => exact absurd heq (h.toText_ne_compound hd hr hs)
  | fixed truth => exact h _ r s hd hr.continuation hs.continuation heq
  | test key t => exact h _ r s hd hr.continuation hs.continuation heq
  | custom leaf => exact h _ r s hd hr.continuation hs.continuation heq
  | negation operand => exact h _ r s hd hr.continuation hs.continuation heq

private theorem toText_compound_ne_operandText {j : Junction} {operands : List (Cond κ)}
    (hc : (compound j operands).Everywhere Legible)
    (h : ∀ operand ∈ operands, operand.OperandReadable) {d : Cond κ}
    (hd : d.Everywhere Legible) {r s : List Char} (hr : Closing r) (hs : Closing s) :
    (compound j operands).toText.toList ++ r ≠ d.operandText ++ s := by
  intro heq
  obtain ⟨operand, hmem, rest, hrest, hfirst⟩ :=
    exists_toText_compound_append_eq hc hr.continuation.balanced
  rw [hfirst] at heq
  have hafter :=
    (h operand hmem d _ s hd (j.continuation_separator hrest) hs.continuation heq).2
  exact j.not_separator_prefix hs ⟨rest, hafter⟩

/-- A junction can be read if its operands can. -/
theorem readable_compound {j : Junction} {operands : List (Cond κ)}
    (hc : (compound j operands).Everywhere Legible)
    (h : ∀ operand ∈ operands, operand.OperandReadable) : (compound j operands).Readable := by
  intro d r s hd hr hs heq
  have hne := toText_compound_ne_operandText hc h hd hr hs
  cases d with
  | compound i others =>
    obtain ⟨hself, hoperands⟩ := everywhere_compound.mp hc
    obtain ⟨hother, hothers⟩ := everywhere_compound.mp hd
    obtain ⟨x, hx, rest, hrest, hfirst⟩ :=
      exists_toText_compound_append_eq hc hr.continuation.balanced
    obtain ⟨y, hy, next, hnext, hsecond⟩ :=
      exists_toText_compound_append_eq hd hs.continuation.balanced
    have hjunction : j = i := by
      rw [hfirst, hsecond] at heq
      have hafter := (h x hx y _ _ (hothers y hy) (j.continuation_separator hrest)
        (i.continuation_separator hnext) heq).2
      exact Junction.eq_of_separator_append_eq hafter
    cases hjunction
    rw [toList_toText_compound, toList_toText_compound] at heq
    have hall := intercalate_append_inj (fun _ hb ↦ j.continuation_separator hb)
      (fun operand hmem ↦ balanced_operandText (balanced_toText (hoperands operand hmem)))
      (fun other hmem ↦ balanced_operandText (balanced_toText (hothers other hmem)))
      (fun operand hmem other hmem' r s hr hs ↦
        h operand hmem other r s (hothers other hmem') hr hs)
      (List.ne_nil_of_mem hx) (List.ne_nil_of_mem hy) hr.continuation hs.continuation
      (j.not_separator_prefix hr) (j.not_separator_prefix hs) heq
    exact ⟨by rw [hall.1], hall.2⟩
  | fixed truth => exact absurd heq hne
  | test key t => exact absurd heq hne
  | custom leaf => exact absurd heq hne
  | negation operand => exact absurd heq hne

/-! ## Texts of operands -/

private theorem toText_test_ne_parenthesis {key : RecordKey} (hkey : key.Alphanumeric) (t : Test)
    (r s : List Char) : (t.toText key.name).toList ++ r ≠ '(' :: s := by
  rw [Test.toText_append]
  apply hkey.isWord.append_ne_cons (by decide)
  intro _ h
  exact absurd (List.cons.inj h).1 (by decide)

private theorem toText_test_ne_negation {key : RecordKey} (hkey : key.Alphanumeric) (t : Test)
    {operand : Cond κ} (hoperand : operand.Everywhere Legible) {r s : List Char} (hr : Balanced r)
    (hs : Balanced s) :
    (t.toText key.name).toList ++ r ≠ (negation operand).toText.toList ++ s := by
  rw [Test.toText_append, toText_negation_append]
  intro h
  have hclosed : Balanced (operand.toText.toList ++ ')' :: s) :=
    (balanced_toText hoperand).append (.cons (by decide) (by decide) hs)
  have hafter := (hkey.isWord.append_inj (by decide) (t.continuation_word hr)
    (.cons (by decide) (.cons (by decide) (by decide) hclosed)) h).2
  exact t.word_append_ne_parenthesis _ _ (List.cons.inj hafter).2

/-- A test can be read as an operand. -/
theorem operandReadable_test {key : RecordKey} {t : Test}
    (hc : (test key t : Cond κ).Everywhere Legible) :
    (test key t : Cond κ).OperandReadable := by
  intro d r s hd hr hs h
  change (t.toText key.name).toList ++ r = _ at h
  cases d with
  | fixed truth => exact hd.self.elim
  | custom leaf => exact hd.self.elim
  | test other u =>
    have htests := Test.toText_append_inj hc.self.1.isWord hd.self.1.isWord hc.self.2 hd.self.2
      hr hs h
    exact ⟨by rw [RecordKey.ext htests.1, htests.2.1], htests.2.2⟩
  | negation operand =>
    have hoperand := (everywhere_negation.mp hd).2
    exact absurd h (toText_test_ne_negation hc.self.1 t hoperand hr.balanced hs.balanced)
  | compound j operands =>
    rw [operandText_compound_append] at h
    exact absurd h (toText_test_ne_parenthesis hc.self.1 t r _)

/-- A negation can be read as an operand if what it negates can be read. -/
theorem operandReadable_negation {operand : Cond κ}
    (hc : (negation operand).Everywhere Legible) (h : operand.Readable) :
    (negation operand).OperandReadable := by
  intro d r s hd hr hs heq
  change (negation operand).toText.toList ++ r = _ at heq
  cases d with
  | fixed truth => exact hd.self.elim
  | custom leaf => exact hd.self.elim
  | test key t =>
    have hoperand := (everywhere_negation.mp hc).2
    exact absurd heq.symm (toText_test_ne_negation hd.self.1 t hoperand hs.balanced hr.balanced)
  | negation other =>
    change _ = (negation other).toText.toList ++ s at heq
    rw [toText_negation_append, toText_negation_append] at heq
    have hinner := (List.cons.inj (List.cons.inj (List.append_cancel_left heq)).2).2
    have hother := h other _ _ (everywhere_negation.mp hd).2 (.cons hr.balanced)
      (.cons hs.balanced) hinner
    exact ⟨by rw [hother.1], (List.cons.inj hother.2).2⟩
  | compound j operands =>
    rw [toText_negation_append, operandText_compound_append] at heq
    exact absurd (List.cons.inj heq).1 (by decide)

/-- A junction can be read as an operand if it can be read. -/
theorem operandReadable_compound {j : Junction} {operands : List (Cond κ)}
    (h : (compound j operands).Readable) : (compound j operands).OperandReadable := by
  intro d r s hd hr hs heq
  rw [operandText_compound_append] at heq
  cases d with
  | fixed truth => exact hd.self.elim
  | custom leaf => exact hd.self.elim
  | test key t => exact absurd heq.symm (toText_test_ne_parenthesis hd.self.1 t s _)
  | negation operand =>
    change _ = (negation operand).toText.toList ++ s at heq
    rw [toText_negation_append] at heq
    exact absurd (List.cons.inj heq).1 (by decide)
  | compound i others =>
    rw [operandText_compound_append] at heq
    have hother := h _ _ _ hd (.cons hr.balanced) (.cons hs.balanced) (List.cons.inj heq).2
    exact ⟨hother.1, (List.cons.inj hother.2).2⟩

/-- A legible condition can be read, as an operand and alone. -/
theorem operandReadable_and_readable {c : Cond κ} (hc : c.Everywhere Legible) :
    c.OperandReadable ∧ c.Readable := by
  induction c with
  | fixed truth => exact hc.self.elim
  | custom leaf => exact hc.self.elim
  | test key t =>
    have htest := operandReadable_test hc
    exact ⟨htest, htest.readable rfl⟩
  | negation operand ih =>
    have hnegation := operandReadable_negation hc (ih (everywhere_negation.mp hc).2).2
    exact ⟨hnegation, hnegation.readable rfl⟩
  | compound j operands ih =>
    have hcompound : (compound j operands).Readable := by
      apply readable_compound hc
      exact fun operand hmem ↦ (ih operand hmem ((everywhere_compound.mp hc).2 operand hmem)).1
    exact ⟨operandReadable_compound hcompound, hcompound⟩

/-! ## Texts of conditions that can be built -/

/-- A node that, if it is a test, is one under an alphanumeric key. -/
def AlphanumericKey (node : Cond κ) : Prop := ∀ key ∈ node.key?, key.Alphanumeric

/-- Whether a node has an alphanumeric key can be told. -/
instance (node : Cond κ) : Decidable node.AlphanumericKey :=
  inferInstanceAs (Decidable (∀ key ∈ node.key?, key.Alphanumeric))

/-- A condition in normal form is legible, unless it is a constant. -/
theorem everywhere_legible {c : Cond κ} (hnormal : c.Everywhere IsNormal) (hfree : c.CustomFree)
    (hkeys : c.Everywhere AlphanumericKey) (hc : ∀ truth, c ≠ fixed truth) :
    c.Everywhere Legible := by
  intro node hnode
  cases node with
  | fixed truth => exact hc truth (eq_fixed_of_mem_nodes hnormal hnode)
  | custom leaf => exact hfree _ hnode leaf rfl
  | test key t =>
    refine ⟨hkeys _ hnode key rfl, fun members ht hnil ↦ ?_⟩
    have hseveral := ((hnormal _ hnode).2 members ht).1
    rw [hnil] at hseveral
    cases hseveral
  | negation operand => trivial
  | compound j operands => exact (hnormal _ hnode).several

private theorem blank_mem_toText {c : Cond κ} (hc : c.Everywhere Legible) :
    ' ' ∈ c.toText.toList := by
  cases c with
  | fixed truth => exact hc.self.elim
  | custom leaf => exact hc.self.elim
  | test key t =>
    change ' ' ∈ (t.toText key.name).toList
    rw [Test.toList_toText]
    exact List.mem_append_right _ List.mem_cons_self
  | negation operand =>
    rw [← List.append_nil (negation operand).toText.toList, toText_negation_append]
    exact List.mem_append_right _ List.mem_cons_self
  | compound j operands =>
    obtain ⟨operand, -, rest, -, heq⟩ := exists_toText_compound_append_eq hc .nil
    obtain ⟨word, hseparator, -⟩ := j.exists_separator_eq
    rw [← List.append_nil (compound j operands).toText.toList, heq, hseparator]
    exact List.mem_append_right _ List.mem_cons_self

private theorem blank_not_mem_toText_fixed (truth : Bool) :
    ' ' ∉ (fixed truth : Cond κ).toText.toList := by
  cases truth with
  | true => exact (by decide : ' ' ∉ "TRUE".toList)
  | false => exact (by decide : ' ' ∉ "FALSE".toList)

private theorem eq_of_toText_fixed_eq {truth other : Bool}
    (h : (fixed truth : Cond κ).toText = (fixed other : Cond κ).toText) : truth = other := by
  cases truth <;> cases other <;> simp [toText] at h ⊢

/-- Conditions without custom parts that can be built over alphanumeric keys are the same if their
texts are. -/
theorem eq_of_toText_eq {c d : Cond κ} (hc : c.Reachable) (hd : d.Reachable)
    (hcfree : c.CustomFree) (hdfree : d.CustomFree) (hckeys : c.Everywhere AlphanumericKey)
    (hdkeys : d.Everywhere AlphanumericKey) (h : c.toText = d.toText) : c = d := by
  have hlegible {c : Cond κ} (hc : c.Reachable) (hfree : c.CustomFree)
      (hkeys : c.Everywhere AlphanumericKey) (hconstant : ¬∃ truth, c = fixed truth) :
      c.Everywhere Legible :=
    everywhere_legible hc.everywhere_isNormal hfree hkeys fun truth heq ↦ hconstant ⟨truth, heq⟩
  by_cases hcconstant : ∃ truth, c = fixed truth
  · obtain ⟨truth, rfl⟩ := hcconstant
    by_cases hdconstant : ∃ other, d = fixed other
    · obtain ⟨other, rfl⟩ := hdconstant
      rw [eq_of_toText_fixed_eq h]
    · have hblank := blank_mem_toText (hlegible hd hdfree hdkeys hdconstant)
      rw [← h] at hblank
      exact absurd hblank (blank_not_mem_toText_fixed truth)
  · have hclegible := hlegible hc hcfree hckeys hcconstant
    by_cases hdconstant : ∃ other, d = fixed other
    · obtain ⟨other, rfl⟩ := hdconstant
      have hblank := blank_mem_toText hclegible
      rw [h] at hblank
      exact absurd hblank (blank_not_mem_toText_fixed other)
    · have hreadable := (operandReadable_and_readable hclegible).2
      exact (hreadable d [] [] (hlegible hd hdfree hdkeys hdconstant) .nil .nil (by rw [h])).1

/-- A text ends in a backslash and another one looks like the rest of a query, and a key is a word
of queries. The second condition is built from repeated and grouped operands. -/
theorem eq_of_toText_eq_regrouped : ∃ c d : Cond Empty,
    c = .or [.test ⟨"NOT", rfl⟩ (.equal (.string "a\\")),
      .not (.and [.test ⟨"n_1", rfl⟩ (.between (.number ⟨true, 50, 1⟩) (.string ") AND ('")),
        .test ⟨"b", rfl⟩ (.contains " OR b IS TRUE OR NOT == '")])] ∧
    d = .or [.test ⟨"NOT", rfl⟩ (.equal (.string "a\\")), .or [
      .or [.test ⟨"NOT", rfl⟩ (.equal (.string "a\\")), .fixed false],
      .not (.and [.test ⟨"n_1", rfl⟩ (.between (.number ⟨true, 50, 1⟩) (.string ") AND ('")),
        .and [.test ⟨"b", rfl⟩ (.contains " OR b IS TRUE OR NOT == '"), .fixed true]])]] ∧
    c.toText = d.toText ∧ c = d := by
  have hfree (c : Cond Empty) : c.CustomFree := fun _ _ leaf ↦ leaf.elim
  have hitem (key : RecordKey) {t : Test} (h : t.kind ≠ .oneOf) :
      (Cond.test key t : Cond Empty).Reachable := .test key h
  have hfirst := hitem ⟨"NOT", rfl⟩ (t := .equal (.string "a\\")) (by decide)
  have hsecond := hitem ⟨"n_1", rfl⟩
    (t := .between (.number ⟨true, 50, 1⟩) (.string ") AND ('")) (by decide)
  have hthird := hitem ⟨"b", rfl⟩ (t := .contains " OR b IS TRUE OR NOT == '") (by decide)
  have hc := Reachable.make_pair .or hfirst (Reachable.make_pair .and hsecond hthird).not
  have hd := Reachable.make_pair .or hfirst (.make_pair .or
    (.make_pair .or hfirst (.fixed false))
    (Reachable.make_pair .and hsecond (.make_pair .and hthird (.fixed true))).not)
  refine ⟨_, _, rfl, rfl, ?same, eq_of_toText_eq hc hd (hfree _) (hfree _) ?_ ?_ ?same⟩
  · decide +kernel
  · decide +kernel
  · decide +kernel

end Cond

end Criteria
