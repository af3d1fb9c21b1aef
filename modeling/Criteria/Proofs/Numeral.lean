import Criteria.Decimal

/-!
# The text of a decimal

The text of a decimal shows its sign, its coefficient and its scale. Main statement: decimals with
one text are the same, down to the sign of a zero and the zeros at the end.
-/

namespace Criteria

/-- A text is cut in one way before the first character of some kind. -/
theorem Text.append_inj_of_head {p : Char → Prop} [DecidablePred p] {s t u v : List Char}
    (hs : ∀ c ∈ s, ¬p c) (ht : ∀ c ∈ t, ¬p c) (hu : ∀ c ∈ u.head?, p c) (hv : ∀ c ∈ v.head?, p c)
    (h : s ++ u = t ++ v) : s = t ∧ u = v := by
  have hcut {s u : List Char} (hs : ∀ c ∈ s, ¬p c) (hu : ∀ c ∈ u.head?, p c) :
      (s ++ u).takeWhile (fun c ↦ ¬p c) = s := by
    rw [List.takeWhile_append_of_pos fun c hc ↦ decide_eq_true (hs c hc)]
    cases u with
    | nil => rw [List.takeWhile_nil, List.append_nil]
    | cons c rest =>
      rw [List.takeWhile_cons_of_neg (by simpa using hu c rfl), List.append_nil]
  have heq : s = t := by rw [← hcut hs hu, h, hcut ht hv]
  rw [heq] at h
  exact ⟨heq, List.append_cancel_left h⟩

namespace Decimal

/-! ## Digits -/

private theorem isDigit_of_mem_digits {d : Decimal} {c : Char} (h : c ∈ d.digits) :
    c.isDigit = true := by
  rcases List.mem_append.mp h with hzero | hdigit
  · rw [List.eq_of_mem_replicate hzero]
    rfl
  · exact Nat.isDigit_of_mem_toDigits (by decide) (by decide) hdigit

private theorem scale_lt_length_digits (d : Decimal) : d.scale < d.digits.length := by
  have hpos : 0 < (Nat.toDigits 10 d.coefficient).length := Nat.length_toDigits_pos
  rw [digits, List.length_append, List.length_replicate]
  omega

private theorem ofDigits_digits (d : Decimal) : ofDigits 0 d.digits = d.coefficient := by
  change Nat.ofDigitChars 10 _ 0 = _
  rw [digits, Nat.ofDigitChars_append, Nat.ofDigitChars_replicate_zero, Nat.mul_zero,
    Nat.ofDigitChars_ten_toDigits]

/-- The digits before the point. -/
def whole (d : Decimal) : List Char := d.digits.take (d.digits.length - d.scale)

/-- The digits after the point. -/
def places (d : Decimal) : List Char := d.digits.drop (d.digits.length - d.scale)

private theorem whole_append_places (d : Decimal) : d.whole ++ d.places = d.digits :=
  List.take_append_drop ..

private theorem length_places (d : Decimal) : d.places.length = d.scale := by
  have hlt := d.scale_lt_length_digits
  rw [places, List.length_drop]
  omega

private theorem exists_whole_eq_cons (d : Decimal) :
    ∃ c rest, d.whole = c :: rest ∧ c.isDigit = true := by
  have hlt := d.scale_lt_length_digits
  cases hwhole : d.whole with
  | nil =>
    have hlength := congrArg List.length hwhole
    rw [whole, List.length_take, List.length_nil] at hlength
    omega
  | cons c rest =>
    have hmem : c ∈ d.digits := by
      rw [← whole_append_places, hwhole]
      exact List.mem_append_left _ List.mem_cons_self
    exact ⟨c, rest, rfl, isDigit_of_mem_digits hmem⟩

/-! ## Texts -/

/-- The point and the digits after it, if there are any. -/
def pointed (d : Decimal) : List Char := if d.places.isEmpty then [] else '.' :: d.places

private theorem toList_toText (d : Decimal) :
    d.toText.toList = (if d.negative then ['-'] else []) ++ (d.whole ++ d.pointed) := by
  rw [toText, String.toList_ofList, List.append_assoc]
  rfl

/-- A character of the text is a digit, the sign or the point. -/
theorem mem_toText {d : Decimal} {c : Char} (h : c ∈ d.toText.toList) :
    c.isDigit = true ∨ c = '-' ∨ c = '.' := by
  have hdigit (hmem : c ∈ d.whole ++ d.places) : c.isDigit = true := by
    rw [whole_append_places] at hmem
    exact isDigit_of_mem_digits hmem
  rw [toList_toText, List.mem_append, List.mem_append] at h
  rcases h with hsign | hwhole | hpointed
  · split at hsign
    · exact .inr (.inl (List.mem_singleton.mp hsign))
    · cases hsign
  · exact .inl (hdigit (List.mem_append_left _ hwhole))
  · rw [pointed] at hpointed
    split at hpointed
    · cases hpointed
    · rcases List.mem_cons.mp hpointed with hpoint | hplace
      · exact .inr (.inr hpoint)
      · exact .inl (hdigit (List.mem_append_right _ hplace))

/-- Every character of the text is a digit, the sign or the point. -/
theorem all_toText (d : Decimal) :
    d.toText.toList.all (fun c ↦ c.isDigit || c == '-' || c == '.') = true := by
  apply List.all_eq_true.mpr
  intro c hc
  simpa [or_assoc] using mem_toText hc

private theorem head?_toText_eq_sign_iff {d : Decimal} :
    d.toText.toList.head? = some '-' ↔ d.negative = true := by
  obtain ⟨c, rest, hwhole, hdigit⟩ := d.exists_whole_eq_cons
  rw [toList_toText, hwhole]
  cases d.negative with
  | true => exact iff_of_true rfl rfl
  | false =>
    apply iff_of_false _ Bool.false_ne_true
    rintro ⟨⟩
    cases hdigit

private theorem tail_pointed (d : Decimal) : d.pointed.tail = d.places := by
  unfold pointed
  split
  · next hempty => exact (List.isEmpty_iff.mp hempty).symm
  · rfl

private theorem head?_pointed (d : Decimal) : ∀ c ∈ d.pointed.head?, c = '.' := by
  intro c hc
  unfold pointed at hc
  split at hc
  · cases hc
  · exact (Option.some.inj hc).symm

/-- Decimals with one text are the same. -/
theorem toText_inj {a b : Decimal} (h : a.toText = b.toText) : a = b := by
  have hnegative : a.negative = b.negative := by
    rw [Bool.eq_iff_iff, ← head?_toText_eq_sign_iff, ← head?_toText_eq_sign_iff, h]
  have hunsigned : a.whole ++ a.pointed = b.whole ++ b.pointed := by
    have htext := congrArg String.toList h
    rw [toList_toText, toList_toText, hnegative] at htext
    exact List.append_cancel_left htext
  have hdigits (d : Decimal) : ∀ c ∈ d.whole, ¬c = '.' := by
    rintro c hc rfl
    cases isDigit_of_mem_digits (List.mem_of_mem_take hc)
  obtain ⟨hwhole, hpointed⟩ := Text.append_inj_of_head (hdigits a) (hdigits b)
    a.head?_pointed b.head?_pointed hunsigned
  have hplaces : a.places = b.places := by rw [← tail_pointed, hpointed, tail_pointed]
  have hscale : a.scale = b.scale := by rw [← length_places, ← length_places, hplaces]
  have hcoefficient : a.coefficient = b.coefficient := by
    rw [← ofDigits_digits, ← ofDigits_digits, ← whole_append_places, ← whole_append_places,
      hwhole, hplaces]
  cases a
  cases b
  cases hnegative
  cases hscale
  cases hcoefficient
  rfl

end Decimal

end Criteria
