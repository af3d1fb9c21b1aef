import Criteria.Text.Quoted

/-!
# Quotations in a text

In a query, a backslash before a single quote keeps the quote from ending a quotation, but a
backslash itself is written as it is. The end of a quotation therefore cannot be told from the
quotation alone: a text that ends in a backslash is closed by what looks like an escaped quote. It
can be told from the whole text. Main statement: if two quotations are followed by texts in which
every quote belongs to a quotation, and all is the same, then the quotations are.
-/

namespace Criteria.Text

/-- What is left to be read inside a quotation: the characters of the quoted text that are still to
come, the closing quote, and what follows the quotation. -/
def quotationRest (coming rest : List Char) : List Char :=
  coming.flatMap quoteChar ++ '\'' :: rest

/-- A quote is escaped. -/
@[simp] theorem quotationRest_quote (coming rest : List Char) :
    quotationRest ('\'' :: coming) rest = '\\' :: '\'' :: quotationRest coming rest := rfl

private theorem quotationRest_cons {c : Char} (h : c ≠ '\'') (coming rest : List Char) :
    quotationRest (c :: coming) rest = c :: quotationRest coming rest := by
  rw [quotationRest, List.flatMap_cons, quoteChar, if_neg h]
  rfl

private theorem quotationRest_cons_ne (c : Char) (coming rest other : List Char) :
    quotationRest (c :: coming) rest ≠ '\'' :: other := by
  intro h
  by_cases hc : c = '\''
  · rw [hc, quotationRest_quote] at h
    exact absurd (List.cons.inj h).1 (by decide)
  · rw [quotationRest_cons hc] at h
    exact hc (List.cons.inj h).1

/-- A quotation is opened by a quote. -/
theorem toList_quoted_append (s : String) (rest : List Char) :
    (quoted s).toList ++ rest = '\'' :: quotationRest s.toList rest := by
  simp [quoted, quotationRest]

/-- A text that consists of quotations and of characters that are neither quotes nor backslashes. -/
inductive Balanced : List Char → Prop
  | nil : Balanced []
  | cons {c : Char} {rest : List Char} (hquote : c ≠ '\'') (hbackslash : c ≠ '\\')
    (h : Balanced rest) : Balanced (c :: rest)
  | quoted (s : String) {rest : List Char} (h : Balanced rest) :
    Balanced ((quoted s).toList ++ rest)

namespace Balanced

/-- A balanced text may be followed by another one. -/
theorem append {s t : List Char} (hs : Balanced s) (ht : Balanced t) : Balanced (s ++ t) := by
  induction hs with
  | nil => exact ht
  | cons hquote hbackslash _ ih => exact .cons hquote hbackslash ih
  | quoted s _ ih =>
    rw [List.append_assoc]
    exact .quoted s ih

/-- Characters that are neither quotes nor backslashes are balanced. -/
theorem of_all {s : List Char} (h : s.all (fun c ↦ c != '\'' && c != '\\') = true) :
    Balanced s := by
  induction s with
  | nil => exact .nil
  | cons c rest ih =>
    rw [List.all_cons, Bool.and_eq_true, Bool.and_eq_true, bne_iff_ne, bne_iff_ne] at h
    exact .cons h.1.1 h.1.2 (ih h.2)

/-- A quotation is balanced. -/
theorem of_quoted (s : String) : Balanced (Text.quoted s).toList := by
  rw [← List.append_nil (Text.quoted s).toList]
  exact .quoted s .nil

/-- No text can be read both from outside a quotation and from inside one: each quote that begins
a quotation in the one reading ends one in the other, and the text ends outside in both. -/
theorem ne_quotationRest {r s : List Char} (hr : Balanced r) (hs : Balanced s)
    (coming : List Char) : r ≠ quotationRest coming s := by
  intro heq
  induction hn : r.length using Nat.strongRecOn generalizing r s coming with
  | ind n ih =>
    cases hr with
    | nil => cases coming <;> simp [quotationRest] at heq
    | @cons c rest hquote hbackslash hrest =>
      rw [List.length_cons] at hn
      cases coming with
      | nil => exact hquote (List.cons.inj heq).1
      | cons d coming =>
        by_cases hd : d = '\''
        · rw [hd, quotationRest_quote] at heq
          exact hbackslash (List.cons.inj heq).1
        · rw [quotationRest_cons hd] at heq
          exact ih rest.length (by omega) hrest hs coming (List.cons.inj heq).2 rfl
    | @quoted a rest hrest =>
      rw [toList_quoted_append] at heq hn
      cases coming with
      | nil =>
        -- The readings change sides.
        have hrest_eq := (List.cons.inj heq).2
        rw [List.length_cons, hrest_eq] at hn
        exact ih s.length (by omega) hs hrest a.toList hrest_eq.symm rfl
      | cons d coming => exact quotationRest_cons_ne _ _ _ _ heq.symm

private theorem quote_cons_quotationRest_ne {r s : List Char} (hr : Balanced r) (hs : Balanced s)
    (t u : List Char) : '\'' :: quotationRest t r ≠ quotationRest u s := by
  intro h
  cases u with
  | nil => exact hs.ne_quotationRest hr t (List.cons.inj h).2.symm
  | cons d u => exact quotationRest_cons_ne _ _ _ _ h.symm

/-- What is left to be read inside a quotation determines where the quotation ends. -/
theorem quotationRest_inj {r s : List Char} (hr : Balanced r) (hs : Balanced s) {t u : List Char}
    (h : quotationRest t r = quotationRest u s) : t = u ∧ r = s := by
  induction t generalizing u with
  | nil =>
    cases u with
    | nil => exact ⟨rfl, (List.cons.inj h).2⟩
    | cons d u => exact absurd h.symm (quotationRest_cons_ne _ _ _ _)
  | cons c t ih =>
    cases u with
    | nil => exact absurd h (quotationRest_cons_ne _ _ _ _)
    | cons d u =>
      by_cases hc : c = '\''
      · by_cases hd : d = '\''
        · rw [hc, hd, quotationRest_quote, quotationRest_quote] at h
          obtain ⟨rfl, hrest⟩ := ih (List.cons.inj (List.cons.inj h).2).2
          exact ⟨by rw [hc, hd], hrest⟩
        · rw [hc, quotationRest_quote, quotationRest_cons hd] at h
          exact absurd (List.cons.inj h).2 (hr.quote_cons_quotationRest_ne hs t u)
      · by_cases hd : d = '\''
        · rw [hd, quotationRest_quote, quotationRest_cons hc] at h
          exact absurd (List.cons.inj h).2.symm (hs.quote_cons_quotationRest_ne hr u t)
        · rw [quotationRest_cons hc, quotationRest_cons hd] at h
          obtain ⟨rfl, hrest⟩ := ih (List.cons.inj h).2
          exact ⟨by rw [(List.cons.inj h).1], hrest⟩

/-- Two quotations that are the same together with what follows them are the same. -/
theorem quoted_append_inj {r s : List Char} (hr : Balanced r) (hs : Balanced s) {a b : String}
    (h : (Text.quoted a).toList ++ r = (Text.quoted b).toList ++ s) : a = b ∧ r = s := by
  rw [toList_quoted_append, toList_quoted_append] at h
  obtain ⟨htext, hrest⟩ := hr.quotationRest_inj hs (List.cons.inj h).2
  exact ⟨String.toList_inj.mp htext, hrest⟩

end Balanced

end Criteria.Text
