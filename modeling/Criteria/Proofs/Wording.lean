import Criteria.Proofs.Numeral
import Criteria.Proofs.Quotation
import Criteria.Test

/-!
# The wording of tests

In a query, keys, words and numerals end at the next blank, comma or parenthesis, and a quotation
ends where the quotes of the rest are balanced. Main statement: the text of a test, followed by what
may follow it in a query, determines the key, the test and what follows.
-/

namespace Criteria

namespace Text

/-! ## Words -/

/-- The characters that end a word. -/
def delimiters : List Char := [' ', ',', '(', ')']

/-- A text without delimiters, quotes and backslashes. -/
def IsWord (s : List Char) : Prop :=
  s.all (fun c ↦ !('\'' :: '\\' :: delimiters).contains c) = true

/-- Whether a text is a word can be told. -/
instance (s : List Char) : Decidable (IsWord s) := inferInstanceAs (Decidable (_ = true))

/-- A text that may follow a word or a quotation: nothing, or a delimiter and a balanced text. -/
inductive Continuation : List Char → Prop
  | nil : Continuation []
  | cons {c : Char} {rest : List Char} (hdelimiter : c ∈ delimiters) (h : Balanced rest) :
    Continuation (c :: rest)

private theorem ne_of_mem_delimiters {c : Char} (h : c ∈ delimiters) : c ≠ '\'' ∧ c ≠ '\\' := by
  constructor
  · rintro rfl
    exact absurd h (by decide)
  · rintro rfl
    exact absurd h (by decide)

namespace Continuation

variable {r : List Char}

/-- What may follow a word is balanced. -/
theorem balanced (h : Continuation r) : Balanced r := by
  cases h with
  | nil => exact .nil
  | cons hdelimiter h =>
    have hne := ne_of_mem_delimiters hdelimiter
    exact .cons hne.1 hne.2 h

private theorem head (h : Continuation r) : ∀ c ∈ r.head?, c ∈ delimiters := by
  cases h with
  | nil => exact fun c hc ↦ nomatch hc
  | cons hdelimiter _ =>
    intro c hc
    rwa [← Option.some.inj hc]

end Continuation

namespace IsWord

variable {s t u v : List Char}

private theorem not_mem (h : IsWord s) {c : Char} (hc : c ∈ s) :
    c ∉ '\'' :: '\\' :: delimiters := by
  simpa using List.all_eq_true.mp h c hc

/-- Characters that no delimiter, quote or backslash is among make a word. -/
theorem of_all {p : Char → Bool} (hp : ('\'' :: '\\' :: delimiters).any p = false)
    (h : s.all p = true) : IsWord s := by
  apply List.all_eq_true.mpr
  intro c hc
  rw [Bool.not_eq_true', ← Bool.not_eq_true, List.contains_iff_mem]
  intro hspecial
  exact List.any_eq_false.mp hp c hspecial (List.all_eq_true.mp h c hc)

private theorem balanced (h : IsWord s) : Balanced s := by
  apply Balanced.of_all
  apply List.all_eq_true.mpr
  intro c hc
  have hspecial := h.not_mem hc
  rw [List.mem_cons, List.mem_cons, not_or, not_or] at hspecial
  rw [Bool.and_eq_true, bne_iff_ne, bne_iff_ne]
  exact ⟨hspecial.1, hspecial.2.1⟩

/-- A word ends where the next delimiter stands. -/
theorem append_inj (hs : IsWord s) (ht : IsWord t) (hu : Continuation u) (hv : Continuation v)
    (h : s ++ u = t ++ v) : s = t ∧ u = v := by
  have hword {s : List Char} (hs : IsWord s) : ∀ c ∈ s, c ∉ delimiters := fun c hc hdelimiter ↦
    hs.not_mem hc (List.mem_cons_of_mem _ (List.mem_cons_of_mem _ hdelimiter))
  exact append_inj_of_head (hword hs) (hword ht) hu.head hv.head h

/-- A word does not begin with a delimiter, a quote or a backslash. -/
theorem append_ne_cons (hs : IsWord s) {c : Char} (hc : c ∈ '\'' :: '\\' :: delimiters)
    (hu : s = [] → u ≠ c :: v) : s ++ u ≠ c :: v := by
  intro h
  cases s with
  | nil => exact hu rfl h
  | cons d rest =>
    have hspecial := hs.not_mem (c := d) List.mem_cons_self
    rw [(List.cons.inj h).1] at hspecial
    exact hspecial hc

private theorem append_ne_quote (hs : IsWord s) (hu : Continuation u) : s ++ u ≠ '\'' :: v := by
  apply hs.append_ne_cons List.mem_cons_self
  rintro - rfl
  exact (ne_of_mem_delimiters (hu.head '\'' rfl)).1 rfl

end IsWord

end Text

open Text

/-! ## Values -/

namespace Value

private theorem isWord_toText {v : Value} (h : v.asString? = none) : IsWord v.toText.toList := by
  cases v with
  | boolean truth => cases truth <;> decide
  | number decimal => exact .of_all (by decide) decimal.all_toText
  | string text => cases h

private theorem balanced_toText (v : Value) : Balanced v.toText.toList := by
  cases v with
  | boolean truth => exact (isWord_toText (v := .boolean truth) rfl).balanced
  | number decimal => exact (isWord_toText (v := .number decimal) rfl).balanced
  | string text => exact .of_quoted text

private theorem truthText_inj :
    ∀ truth other, truthText truth = truthText other → truth = other := by
  decide

private theorem eq_of_toText_word {v w : Value} (hv : v.asString? = none) (hw : w.asString? = none)
    (h : v.toText = w.toText) : v = w := by
  have hne (truth : Bool) (decimal : Decimal) : truthText truth ≠ decimal.toText := by
    intro h
    have hletter : 'e' ∈ decimal.toText.toList := by
      rw [← h]
      cases truth <;> decide
    rcases Decimal.mem_toText hletter with hdigit | hsign | hpoint
    · cases hdigit
    · cases hsign
    · cases hpoint
  cases v with
  | boolean truth =>
    cases w with
    | boolean other => rw [truthText_inj truth other h]
    | number decimal => exact absurd h (hne truth decimal)
    | string text => cases hw
  | number decimal =>
    cases w with
    | boolean other => exact absurd h.symm (hne other decimal)
    | number other => rw [Decimal.toText_inj h]
    | string text => cases hw
  | string text => cases hv

private theorem string_or_word (v : Value) : (∃ text, v = string text) ∨ v.asString? = none := by
  cases v with
  | string text => exact .inl ⟨text, rfl⟩
  | boolean truth => exact .inr rfl
  | number decimal => exact .inr rfl

/-- The text of a value and what follows it determine the value. -/
theorem toText_append_inj {v w : Value} {r s : List Char} (hr : Continuation r)
    (hs : Continuation s) (h : v.toText.toList ++ r = w.toText.toList ++ s) : v = w ∧ r = s := by
  have hne {v : Value} (hv : v.asString? = none) (text : String) {r s : List Char}
      (hr : Continuation r) : v.toText.toList ++ r ≠ (string text).toText.toList ++ s := by
    intro h
    change _ = (Text.quoted text).toList ++ s at h
    rw [toList_quoted_append] at h
    exact (isWord_toText hv).append_ne_quote hr h
  rcases v.string_or_word with ⟨text, rfl⟩ | hv
  · rcases w.string_or_word with ⟨other, rfl⟩ | hw
    · have hquoted := hr.balanced.quoted_append_inj hs.balanced h
      exact ⟨by rw [hquoted.1], hquoted.2⟩
    · exact absurd h.symm (hne hw text hs)
  · rcases w.string_or_word with ⟨other, rfl⟩ | hw
    · exact absurd h (hne hv other hr)
    · have hword := (isWord_toText hv).append_inj (isWord_toText hw) hr hs h
      exact ⟨eq_of_toText_word hv hw (String.toList_inj.mp hword.1), hword.2⟩

end Value

/-! ## Lists -/

namespace Text

variable {α : Type} {text : α → List Char} {separator : List Char}

/-- Balanced texts with a balanced separator between them are balanced. -/
theorem Balanced.intercalate (hseparator : Balanced separator) {xs : List α}
    (hxs : ∀ x ∈ xs, Balanced (text x)) : Balanced (separator.intercalate (xs.map text)) := by
  induction xs with
  | nil => exact .nil
  | cons x xs ih =>
    rw [List.forall_mem_cons] at hxs
    cases xs with
    | nil => rw [List.map_singleton, List.intercalate_singleton]; exact hxs.1
    | cons y ys =>
      rw [List.map_cons, List.map_cons, List.intercalate_cons_cons]
      exact (hxs.1.append hseparator).append (ih hxs.2)

/-- After the first of several texts comes the separator. -/
theorem intercalate_cons_cons_append (x y : α) (ys : List α) (r : List Char) :
    separator.intercalate ((x :: y :: ys).map text) ++ r =
      text x ++ (separator ++ (separator.intercalate ((y :: ys).map text) ++ r)) := by
  rw [List.map_cons, List.map_cons, List.intercalate_cons_cons, List.append_assoc,
    List.append_assoc]

/-- Separated texts that each determine what they stand for determine it together, if no separator
follows. -/
theorem intercalate_append_inj (hseparator : ∀ r, Balanced r → Continuation (separator ++ r))
    {xs ys : List α} (hxs : ∀ x ∈ xs, Balanced (text x)) (hys : ∀ y ∈ ys, Balanced (text y))
    (hinj : ∀ x ∈ xs, ∀ y ∈ ys, ∀ r s, Continuation r → Continuation s →
      text x ++ r = text y ++ s → x = y ∧ r = s)
    (hxs_ne : xs ≠ []) (hys_ne : ys ≠ []) {r s : List Char} (hr : Continuation r)
    (hs : Continuation s) (hr_end : ¬separator <+: r) (hs_end : ¬separator <+: s)
    (h : separator.intercalate (xs.map text) ++ r = separator.intercalate (ys.map text) ++ s) :
    xs = ys ∧ r = s := by
  have hbalanced : Balanced separator := by simpa using (hseparator [] .nil).balanced
  have hnext {zs : List α} (hzs : ∀ z ∈ zs, Balanced (text z)) {t : List Char}
      (ht : Continuation t) :
      Continuation (separator ++ (separator.intercalate (zs.map text) ++ t)) :=
    hseparator _ ((hbalanced.intercalate hzs).append ht.balanced)
  -- The first items agree, and what follows them shows whether more items come.
  induction xs generalizing ys with
  | nil => exact absurd rfl hxs_ne
  | cons x xs ih =>
    cases ys with
    | nil => exact absurd rfl hys_ne
    | cons y ys =>
      have hfirst := hinj x List.mem_cons_self y List.mem_cons_self
      have hxs' := (List.forall_mem_cons.mp hxs).2
      have hys' := (List.forall_mem_cons.mp hys).2
      cases xs with
      | nil =>
        cases ys with
        | nil =>
          simp only [List.map_singleton, List.intercalate_singleton] at h
          have heq := hfirst r s hr hs h
          exact ⟨by rw [heq.1], heq.2⟩
        | cons y' ys =>
          rw [intercalate_cons_cons_append, List.map_singleton, List.intercalate_singleton] at h
          exact absurd ⟨_, (hfirst r _ hr (hnext hys' hs) h).2.symm⟩ hr_end
      | cons x' xs =>
        cases ys with
        | nil =>
          rw [intercalate_cons_cons_append, List.map_singleton, List.intercalate_singleton] at h
          exact absurd ⟨_, (hfirst _ s (hnext hxs' hr) hs h).2⟩ hs_end
        | cons y' ys =>
          rw [intercalate_cons_cons_append, intercalate_cons_cons_append] at h
          have heq := hfirst _ _ (hnext hxs' hr) (hnext hys' hs) h
          have hrest := ih hxs' hys'
            (fun a ha b hb ↦ hinj a (List.mem_cons_of_mem x ha) b (List.mem_cons_of_mem y hb))
            (List.cons_ne_nil _ _) (List.cons_ne_nil _ _) (List.append_cancel_left heq.2)
          exact ⟨by rw [heq.1, hrest.1], hrest.2⟩

end Text

/-! ## Tests -/

namespace Test

/-- The word that follows the key in the text of a test. -/
def word : Test → String
  | equal _ => "=="
  | ordered relation _ => relation.sign
  | oneOf _ => "IN"
  | between _ _ => "BETWEEN"
  | contains _ => "CONTAINS"
  | isTrue | isNull => "IS"

/-- What follows the first word in the text of a test. -/
def phrase : Test → List Char
  | equal v => ' ' :: v.toText.toList
  | ordered _ v => ' ' :: v.toText.toList
  | oneOf members =>
    ' ' :: '(' :: ([',', ' '].intercalate (members.toList.map (·.toText.toList)) ++ [')'])
  | between low high => ' ' :: (low.toText.toList ++ " AND ".toList ++ high.toText.toList)
  | contains part => ' ' :: (Text.quoted part).toList
  | isTrue => " TRUE".toList
  | isNull => " NULL".toList

/-- The text of a test consists of the key, a word, and what follows the word. -/
theorem toList_toText (t : Test) (key : String) :
    (t.toText key).toList = key.toList ++ ' ' :: (t.word.toList ++ t.phrase) := by
  cases t with
  | equal v => simp [toText, word, phrase]
  | ordered relation v => simp [toText, word, phrase]
  | oneOf members => simp [toText, word, phrase, String.toList_intercalate, Function.comp_def]
  | between low high => simp [toText, word, phrase]
  | contains part => simp [toText, word, phrase]
  | isTrue => simp [toText, word, phrase]
  | isNull => simp [toText, word, phrase]

/-- The words that follow a key. -/
def words : List String := ["==", ">", ">=", "<", "<=", "IN", "BETWEEN", "CONTAINS", "IS"]

private theorem word_mem_words (t : Test) : t.word ∈ words := by
  cases t with
  | ordered relation v => cases relation <;> simp [word, words, Relation.sign]
  | _ => simp [word, words]

private theorem isWord_word (t : Test) : IsWord t.word.toList :=
  (by decide : ∀ word ∈ words, IsWord word.toList) t.word t.word_mem_words

/-- No test has a parenthesis in the place of its word. -/
theorem word_append_ne_parenthesis (t : Test) (r s : List Char) :
    t.word.toList ++ r ≠ '(' :: s := by
  have hne : t.word.toList ≠ [] :=
    (by decide : ∀ word ∈ words, word.toList ≠ []) t.word t.word_mem_words
  exact t.isWord_word.append_ne_cons (by decide) fun h ↦ absurd h hne

private theorem sign_ne_word (relation : Relation) {t : Test}
    (ht : ∀ other v, t ≠ ordered other v) :
    relation.sign ≠ t.word := by
  cases t with
  | ordered other v => exact absurd rfl (ht other v)
  | _ => cases relation <;> simp [word, Relation.sign]

/-- What holds of tests with the same word holds of tests that ask the same, and of tests without an
operand. -/
@[elab_as_elim] theorem word_cases {motive : Test → Test → Prop}
    (equal : ∀ v w, motive (.equal v) (.equal w))
    (ordered : ∀ relation v w, motive (.ordered relation v) (.ordered relation w))
    (oneOf : ∀ members others, motive (.oneOf members) (.oneOf others))
    (between : ∀ low high bottom top, motive (.between low high) (.between bottom top))
    (contains : ∀ part other, motive (.contains part) (.contains other))
    (isTrue : motive .isTrue .isTrue) (isNull : motive .isNull .isNull)
    (isTrue_isNull : motive .isTrue .isNull) (isNull_isTrue : motive .isNull .isTrue)
    {t u : Test} (h : t.word = u.word) : motive t u := by
  cases t with
  | equal v =>
    cases u with
    | equal w => exact equal v w
    | ordered relation w => exact absurd h.symm (sign_ne_word relation (by simp))
    | _ => simp [word] at h
  | ordered relation v =>
    cases u with
    | ordered other w =>
      have hrelation : relation = other := by
        cases relation <;> cases other <;> simp [word, Relation.sign] at h ⊢
      exact hrelation ▸ ordered relation v w
    | _ => exact absurd h (sign_ne_word relation (by simp))
  | oneOf members =>
    cases u with
    | oneOf others => exact oneOf members others
    | ordered relation w => exact absurd h.symm (sign_ne_word relation (by simp))
    | _ => simp [word] at h
  | between low high =>
    cases u with
    | between bottom top => exact between low high bottom top
    | ordered relation w => exact absurd h.symm (sign_ne_word relation (by simp))
    | _ => simp [word] at h
  | contains part =>
    cases u with
    | contains other => exact contains part other
    | ordered relation w => exact absurd h.symm (sign_ne_word relation (by simp))
    | _ => simp [word] at h
  | isTrue =>
    cases u with
    | isTrue => exact isTrue
    | isNull => exact isTrue_isNull
    | ordered relation w => exact absurd h.symm (sign_ne_word relation (by simp))
    | _ => simp [word] at h
  | isNull =>
    cases u with
    | isTrue => exact isNull_isTrue
    | isNull => exact isNull
    | ordered relation w => exact absurd h.symm (sign_ne_word relation (by simp))
    | _ => simp [word] at h

private theorem exists_phrase_eq (t : Test) : ∃ rest, t.phrase = ' ' :: rest ∧ Balanced rest := by
  cases t with
  | equal v => exact ⟨_, rfl, v.balanced_toText⟩
  | ordered relation v => exact ⟨_, rfl, v.balanced_toText⟩
  | oneOf members =>
    have hmembers : Balanced
        ([',', ' '].intercalate (members.toList.map (·.toText.toList))) :=
      (Balanced.of_all (by decide)).intercalate fun v _ ↦ v.balanced_toText
    exact ⟨_, rfl, .cons (by decide) (by decide) (hmembers.append (.of_all (by decide)))⟩
  | between low high =>
    exact ⟨_, rfl, (low.balanced_toText.append (.of_all (by decide))).append high.balanced_toText⟩
  | contains part => exact ⟨_, rfl, .of_quoted part⟩
  | isTrue => exact ⟨"TRUE".toList, rfl, .of_all (by decide)⟩
  | isNull => exact ⟨"NULL".toList, rfl, .of_all (by decide)⟩

private theorem continuation_phrase (t : Test) {r : List Char} (hr : Balanced r) :
    Continuation (t.phrase ++ r) := by
  obtain ⟨rest, hphrase, hrest⟩ := t.exists_phrase_eq
  rw [hphrase]
  exact .cons (by decide) (hrest.append hr)

/-- What follows the word of a test determines the test. A test of membership has a member. -/
theorem phrase_append_inj {t u : Test} {r s : List Char}
    (ht : ∀ members, t = oneOf members → members.toList ≠ [])
    (hu : ∀ members, u = oneOf members → members.toList ≠ []) (hr : Continuation r)
    (hs : Continuation s) (hword : t.word = u.word) (h : t.phrase ++ r = u.phrase ++ s) :
    t = u ∧ r = s := by
  revert ht hu h
  refine word_cases ?_ ?_ ?_ ?_ ?_ ?_ ?_ ?_ ?_ hword
  · intro v w _ _ h
    have hvalue := Value.toText_append_inj hr hs (List.cons.inj h).2
    exact ⟨by rw [hvalue.1], hvalue.2⟩
  · intro relation v w _ _ h
    have hvalue := Value.toText_append_inj hr hs (List.cons.inj h).2
    exact ⟨by rw [hvalue.1], hvalue.2⟩
  · intro members others ht hu h
    simp only [phrase, List.cons_append, List.append_assoc, List.nil_append, List.cons.injEq,
      true_and] at h
    have hmembers := intercalate_append_inj (fun _ hb ↦ .cons (by decide) (.cons (by decide)
      (by decide) hb)) (fun v _ ↦ v.balanced_toText) (fun w _ ↦ w.balanced_toText)
      (fun v _ w _ _ _ hr hs ↦ Value.toText_append_inj hr hs) (ht members rfl) (hu others rfl)
      (.cons (by decide) hr.balanced) (.cons (by decide) hs.balanced) (by simp) (by simp) h
    exact ⟨by rw [OrderedSet.ext hmembers.1], (List.cons.inj hmembers.2).2⟩
  · intro low high bottom top _ _ h
    have hbound {v : Value} {r : List Char} (hr : Continuation r) :
        Continuation (" AND ".toList ++ (v.toText.toList ++ r)) := by
      have hrest := v.balanced_toText.append hr.balanced
      exact .cons (by decide) ((Balanced.of_all (s := "AND ".toList) (by decide)).append hrest)
    simp only [phrase, List.cons_append, List.append_assoc, List.cons.injEq, true_and] at h
    have hlow := Value.toText_append_inj (hbound hr) (hbound hs) h
    have hhigh := Value.toText_append_inj hr hs (List.append_cancel_left hlow.2)
    exact ⟨by rw [hlow.1, hhigh.1], hhigh.2⟩
  · intro part other _ _ h
    have hquoted := hr.balanced.quoted_append_inj hs.balanced (List.cons.inj h).2
    exact ⟨by rw [hquoted.1], hquoted.2⟩
  · intro _ _ h
    exact ⟨rfl, List.append_cancel_left h⟩
  · intro _ _ h
    exact ⟨rfl, List.append_cancel_left h⟩
  · intro _ _ h
    simp [phrase] at h
  · intro _ _ h
    simp [phrase] at h

/-- The word of a test and what follows it may follow a key. -/
theorem continuation_word (t : Test) {r : List Char} (hr : Balanced r) :
    Continuation (' ' :: (t.word.toList ++ (t.phrase ++ r))) :=
  .cons (by decide) (t.isWord_word.balanced.append (t.continuation_phrase hr).balanced)

/-- The text of a test is the key, a word, and what follows it. -/
theorem toText_append (t : Test) (key : String) (r : List Char) :
    (t.toText key).toList ++ r = key.toList ++ ' ' :: (t.word.toList ++ (t.phrase ++ r)) := by
  rw [toList_toText, List.append_assoc, List.cons_append, List.append_assoc]

/-- The text of a test is balanced if its key is a word. -/
theorem balanced_toText (t : Test) {key : String} (hkey : IsWord key.toList) :
    Balanced (t.toText key).toList := by
  rw [← List.append_nil (t.toText key).toList, toText_append]
  exact hkey.balanced.append (t.continuation_word .nil).balanced

/-- The text of a test and what follows it determine the key and the test. -/
theorem toText_append_inj {t u : Test} {key other : String} {r s : List Char}
    (hkey : IsWord key.toList) (hother : IsWord other.toList)
    (ht : ∀ members, t = oneOf members → members.toList ≠ [])
    (hu : ∀ members, u = oneOf members → members.toList ≠ []) (hr : Continuation r)
    (hs : Continuation s) (h : (t.toText key).toList ++ r = (u.toText other).toList ++ s) :
    key = other ∧ t = u ∧ r = s := by
  rw [toText_append, toText_append] at h
  have hkeys := hkey.append_inj hother (t.continuation_word hr.balanced)
    (u.continuation_word hs.balanced) h
  have hwords := t.isWord_word.append_inj u.isWord_word (t.continuation_phrase hr.balanced)
    (u.continuation_phrase hs.balanced) (List.cons.inj hkeys.2).2
  exact ⟨String.toList_inj.mp hkeys.1,
    phrase_append_inj ht hu hr hs (String.toList_inj.mp hwords.1) hwords.2⟩

end Test

end Criteria
