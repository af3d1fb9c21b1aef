import Criteria.Proofs.Canonical
import Criteria.Pass.Sharing

/-!
# Looking up by digest

Members of a set, and the keys of counts, are looked up by digest first and compared afterwards, and
conditions of different digests are not compared at all. Since equal things have one digest, nothing
is missed in this way. Main statement: equal values, sets and conditions have one digest for every
hash function, and a set with an index, counts by digest, and a comparison that looks at digests
first answer as if everything were compared.
-/

namespace Criteria

/-! ## Descriptions -/

/-- What describes the members of a type to a hash function, equal ones alike. -/
structure Description (α : Type) [BEq α] where
  /-- The tokens that describe something. -/
  tokens : α → List Token
  /-- Equal things are described by the same tokens. -/
  tokens_eq : ∀ {a b : α}, (a == b) = true → tokens a = tokens b

/-- The digest of what is described. -/
def Description.digest {α : Type} [BEq α] (d : Description α) (hash : HashFunction) (a : α) :
    UInt64 :=
  hash (d.tokens a)

/-- Equal things have one digest. -/
theorem Description.digest_eq {α : Type} [BEq α] (d : Description α) (hash : HashFunction) {a b : α}
    (h : (a == b) = true) : d.digest hash a = d.digest hash b := by
  rw [digest, digest, d.tokens_eq h]

/-- Values are described by their kind and content. -/
def Value.description : Description Value := ⟨Value.tokens, Value.tokens_eq⟩

/-- A set is described by its size and the sum of its members' digests. -/
def OrderedSet.description {α : Type} [BEq α] [EquivBEq α] (hash : HashFunction)
    (d : Description α) : Description (OrderedSet α) where
  tokens s := unorderedTokens (s.toList.map (d.digest hash))
  tokens_eq h := unorderedTokens_perm (map_perm_of_beq (d.digest_eq hash) h)

/-- Conditions are described by the digests that they carry. -/
def Cond.description {κ : Type} [CustomCondition κ] (hash : HashFunction) :
    Description (Cond κ) where
  tokens c := [.digest (c.digest hash)]
  tokens_eq {a b} h := by rw [digest_eq_of_equal hash (beq_def a b ▸ h)]

/-! ## Sets with an index -/

section Index

variable {α : Type} {digest : α → UInt64}

/-- The items that have a digest. -/
def bucket (digest : α → UInt64) (items : List α) (word : UInt64) : List α :=
  items.filter (digest · == word)

private theorem and_digest_eq {p : α → Bool} {word : UInt64}
    (h : ∀ b, p b = true → digest b = word) :
    (fun b ↦ digest b == word && p b) = p := by
  funext b
  rw [Bool.and_eq_right_iff_imp, beq_iff_eq]
  exact h b

private theorem filter_bucket {p : α → Bool} {word : UInt64} (h : ∀ b, p b = true → digest b = word)
    (items : List α) : (bucket digest items word).filter p = items.filter p := by
  simp only [bucket, List.filter_filter, Bool.and_comm (p _), and_digest_eq h]

private theorem any_bucket {p : α → Bool} {word : UInt64} (h : ∀ b, p b = true → digest b = word)
    (items : List α) : (bucket digest items word).any p = items.any p := by
  simp only [bucket, List.any_filter, and_digest_eq h]

/-- Items in the order of their insertion, with an index that lists the items of each digest. -/
structure Indexed (digest : α → UInt64) where
  /-- The items in order. -/
  items : List α
  /-- The items of a digest. -/
  index : UInt64 → List α
  /-- The index lists the items. -/
  inStep : ∀ word, index word = bucket digest items word

namespace Indexed

/-- No items. -/
def empty : Indexed digest := ⟨[], fun _ ↦ [], fun _ ↦ rfl⟩

/-- Adds an item at the end. -/
def push (s : Indexed digest) (a : α) : Indexed digest where
  items := s.items ++ [a]
  index word := if digest a == word then s.index word ++ [a] else s.index word
  inStep word := by
    rw [bucket, List.filter_append, s.inStep, bucket]
    split
    · next h => rw [List.filter_cons, if_pos h, List.filter_nil]
    · next h => rw [List.filter_cons, if_neg h, List.filter_nil, List.append_nil]

/-- The item is added at the end. -/
@[simp] theorem items_push (s : Indexed digest) (a : α) : (s.push a).items = s.items ++ [a] := rfl

variable [BEq α]

/-- The items that are found by the digest of something and equal it. -/
def found (s : Indexed digest) (a : α) : List α := (s.index (digest a)).filter (· == a)

/-- Whether an item is found that has the digest of something and equals it. -/
def contains (s : Indexed digest) (a : α) : Bool := (s.index (digest a)).any (· == a)

/-- Adds an item, unless an equal one is found. -/
def insert (s : Indexed digest) (a : α) : Indexed digest := if s.contains a then s else s.push a

/-- Inserts the items of a list from left to right. -/
def insertAll (s : Indexed digest) (items : List α) : Indexed digest := items.foldl insert s

/-- The items of a list with an index, inserted from left to right. -/
def ofList (digest : α → UInt64) (items : List α) : Indexed digest := items.foldl insert empty

variable (hdigest : ∀ {a b : α}, (a == b) = true → digest a = digest b)

include hdigest

/-- Exactly the equal items are found. -/
theorem found_eq (s : Indexed digest) (a : α) : s.found a = s.items.filter (· == a) := by
  rw [found, s.inStep, filter_bucket fun b hba ↦ hdigest hba]

/-- An item is found exactly if there is an equal one. -/
theorem contains_eq (s : Indexed digest) (a : α) : s.contains a = s.items.any (· == a) := by
  rw [contains, s.inStep, any_bucket fun b hba ↦ hdigest hba]

/-- An insertion keeps the items in step with those of a set. -/
theorem items_insert {s : Indexed digest} {t : OrderedSet α} (h : s.items = t.toList) (a : α) :
    (s.insert a).items = (t.insert a).toList := by
  have hcontains : s.contains a = t.contains a := by
    rw [contains_eq hdigest, h]
    rfl
  rw [insert, OrderedSet.toList_insert, hcontains]
  split
  · exact h
  · rw [items_push, h]

/-- Insertions of a list keep the items in step with those of a set. -/
theorem items_insertAll {s : Indexed digest} {t : OrderedSet α} (h : s.items = t.toList)
    (items : List α) : (s.insertAll items).items = (t.insertAll items).toList := by
  induction items generalizing s t with
  | nil => exact h
  | cons a items ih => exact ih (items_insert hdigest h a)

/-- The items inserted from a list are those of its set. -/
theorem items_ofList (items : List α) :
    (ofList digest items).items = (OrderedSet.ofList items).toList :=
  items_insertAll hdigest (s := empty) (t := .empty) rfl items

end Indexed

/-! ## Counts -/

/-- Counts of keys, listed under the digests of the keys. -/
def Tally (α : Type) : Type := UInt64 → List (α × Nat)

namespace Tally

variable [BEq α]

/-- Counts a key once more. A new key is listed at the end. -/
def bump (a : α) : List (α × Nat) → List (α × Nat)
  | [] => [(a, 1)]
  | (key, n) :: rest => if key == a then (key, n + 1) :: rest else (key, n) :: bump a rest

/-- The count of a key. -/
def countIn (a : α) : List (α × Nat) → Nat
  | [] => 0
  | (key, n) :: rest => if key == a then n else countIn a rest

/-- Counts a key once more under its digest. -/
def add (digest : α → UInt64) (t : Tally α) (a : α) : Tally α :=
  fun word ↦ if digest a == word then bump a (t word) else t word

/-- Nothing counted. -/
def empty : Tally α := fun _ ↦ []

/-- Counts the keys of a list. -/
def ofList (digest : α → UInt64) (keys : List α) : Tally α := keys.foldl (add digest) empty

/-- The count of a key under its digest. -/
def count (digest : α → UInt64) (t : Tally α) (a : α) : Nat := countIn a (t (digest a))

variable [EquivBEq α]

private theorem countIn_bump (a b : α) (entries : List (α × Nat)) :
    countIn b (bump a entries) = countIn b entries + if a == b then 1 else 0 := by
  induction entries with
  | nil => simp [bump, countIn]
  | cons entry rest ih =>
    obtain ⟨key, n⟩ := entry
    by_cases hkey : (key == a) = true
    · rw [bump, if_pos hkey, countIn, countIn, BEq.congr_left hkey]
      by_cases hab : (a == b) = true
      · rw [if_pos hab, if_pos hab, if_pos hab]
      · rw [if_neg hab, if_neg hab, if_neg hab, Nat.add_zero]
    · rw [bump, if_neg hkey, countIn, countIn, ih]
      by_cases hkeyb : (key == b) = true
      · have hab : ¬(a == b) = true := fun hab ↦ hkey (BEq.trans hkeyb (BEq.symm hab))
        rw [if_pos hkeyb, if_pos hkeyb, if_neg hab, Nat.add_zero]
      · rw [if_neg hkeyb, if_neg hkeyb]

variable (hdigest : ∀ {a b : α}, (a == b) = true → digest a = digest b)

include hdigest

/-- Counting a key under its digest adds one to the counts of its equals. -/
theorem count_add (t : Tally α) (a b : α) :
    (t.add digest a).count digest b = t.count digest b + if a == b then 1 else 0 := by
  rw [count, count, add]
  by_cases hword : (digest a == digest b) = true
  · rw [if_pos hword, countIn_bump]
  · have hab : ¬(a == b) = true := fun hab ↦ hword (beq_iff_eq.mpr (hdigest hab))
    rw [if_neg hword, if_neg hab, Nat.add_zero]

/-- The keys of a list that equal a key are counted. -/
theorem count_ofList (keys : List α) (a : α) :
    (ofList digest keys).count digest a = keys.countP (· == a) := by
  suffices ∀ t : Tally α, (keys.foldl (add digest) t).count digest a =
      t.count digest a + keys.countP (· == a) from (this empty).trans (Nat.zero_add _)
  induction keys with
  | nil => exact fun t ↦ rfl
  | cons key keys ih =>
    intro t
    rw [List.foldl_cons, ih, count_add hdigest, List.countP_cons, Nat.add_right_comm, Nat.add_assoc]

end Tally

end Index

/-! ## Comparison -/

/-- A test that only a condition and itself pass, such as whether two are stored in one place. -/
structure PlaceTest (κ : Type) [CustomCondition κ] where
  /-- Whether the test is passed. -/
  passes : Cond κ → Cond κ → Bool
  /-- What passes the test is one condition. -/
  eq_of_passes : ∀ {a b : Cond κ}, passes a b = true → a = b

namespace Cond

variable {κ : Type} [CustomCondition κ]

/-- Compares two conditions. Those stored in one place are equal, and those of different digests are
not; otherwise the answer is that of their parts. -/
def compareEarly (place : PlaceTest κ) (hash : HashFunction) (a b : Cond κ) (parts : Bool) : Bool :=
  place.passes a b || (a.digest hash == b.digest hash && parts)

mutual

/-- Compares the parts of two conditions. The operands of a compound are looked up among those of
the other, of which there have to be as many. -/
def compareParts (place : PlaceTest κ) (hash outer : HashFunction) : Cond κ → Cond κ → Bool
  | fixed a, fixed b => a == b
  | test k t, test l u => k == l && t == u
  | custom a, custom b => CustomCondition.equal a b
  | negation a, negation b => compareEarly place hash a b (compareParts place hash outer a b)
  | compound i as, compound j bs =>
    i == j && (as.length == bs.length && compareEach place hash outer as bs)
  | _, _ => false

/-- Looks up each condition of a list among those of another, by digest and then by comparison. -/
def compareEach (place : PlaceTest κ) (hash outer : HashFunction) :
    List (Cond κ) → List (Cond κ) → Bool
  | [], _ => true
  | a :: as, bs =>
    let digest := (description hash).digest outer
    (bucket digest bs (digest a)).any (fun b ↦
      compareEarly place hash a b (compareParts place hash outer a b)) &&
        compareEach place hash outer as bs

end

/-- Compares two conditions. -/
def compareByDigest (place : PlaceTest κ) (hash outer : HashFunction) (a b : Cond κ) : Bool :=
  compareEarly place hash a b (compareParts place hash outer a b)

variable (place : PlaceTest κ) (hash outer : HashFunction)

private theorem compareEarly_eq {a b : Cond κ} {parts : Bool} (h : parts = equal a b) :
    compareEarly place hash a b parts = equal a b := by
  rw [compareEarly, h]
  cases hequal : equal a b with
  | true => rw [digest_eq_of_equal hash hequal, beq_self_eq_true, Bool.and_true, Bool.or_true]
  | false =>
    rw [Bool.and_false, Bool.or_false, ← Bool.not_eq_true]
    intro hpasses
    rw [place.eq_of_passes hpasses, equal_refl] at hequal
    cases hequal

private theorem compareEach_eq {as bs : List (Cond κ)}
    (h : ∀ a ∈ as, ∀ b, compareParts place hash outer a b = equal a b) :
    compareEach place hash outer as bs = as.all fun a ↦ bs.any (equal a) := by
  induction as with
  | nil => rfl
  | cons a as ih =>
    rw [List.forall_mem_cons] at h
    have hcompare : (fun b ↦ compareEarly place hash a b (compareParts place hash outer a b)) =
        equal a :=
      funext fun b ↦ compareEarly_eq place hash (h.1 b)
    rw [compareEach, hcompare, ih h.2, List.all_cons]
    congr 1
    apply any_bucket
    intro b hab
    exact ((description hash).digest_eq outer ((beq_def a b).trans hab)).symm

private theorem compareParts_eq [LawfulCustomCondition κ] {a : Cond κ} (ha : a.Everywhere IsNormal)
    (b : Cond κ) : compareParts place hash outer a b = equal a b := by
  induction a generalizing b with
  | fixed truth => cases b <;> rfl
  | test key t => cases b <;> rfl
  | custom leaf => cases b <;> rfl
  | negation operand ih =>
    cases b with
    | negation other =>
      rw [compareParts, equal]
      exact compareEarly_eq place hash (ih (everywhere_negation.mp ha).2 other)
    | _ => rfl
  | compound j operands ih =>
    obtain ⟨hnormal, hoperands⟩ := everywhere_compound.mp ha
    cases b with
    | compound i others =>
      have heach : compareEach place hash outer operands others =
          operands.all fun operand ↦ others.any (equal operand) :=
        compareEach_eq place hash outer fun operand hmem ↦ ih operand hmem (hoperands operand hmem)
      rw [compareParts, heach, ← beq_def, Bool.eq_iff_iff, beq_compound_iff hnormal.different]
      simp only [Bool.and_eq_true, beq_iff_eq, List.all_eq_true, List.any_eq_true, ← beq_def,
        BEq.comm]
    | _ => rfl

/-- A condition that can be built is compared rightly with every condition. -/
theorem compareByDigest_eq [LawfulCustomCondition κ] {a : Cond κ} (ha : a.Reachable)
    (b : Cond κ) : compareByDigest place hash outer a b = (a == b) := by
  rw [beq_def]
  exact compareEarly_eq place hash (compareParts_eq place hash outer ha.everywhere_isNormal b)

/-- Equal values, sets and conditions have one digest for every hash function. Exactly what is equal
is found by digest in the index of a set, in the counts of shared branches, and where conditions are
compared. -/
theorem digest_eq_and_lookup (hash outer : HashFunction) :
    (∀ v w : Value, (v == w) = true → hash v.tokens = hash w.tokens) ∧
    (∀ {α : Type} [BEq α] [EquivBEq α] (d : Description α) (s t : OrderedSet α), (s == t) = true →
      outer (unorderedTokens (s.toList.map (d.digest hash))) =
        outer (unorderedTokens (t.toList.map (d.digest hash)))) ∧
    (∀ a b : Cond κ, (a == b) = equal a b ∧ (equal a b = true → a.digest hash = b.digest hash)) ∧
    (∀ {α : Type} [BEq α] (d : Description α) (items : List α) (a : α),
      let s := Indexed.ofList (d.digest outer) items
      s.items = (OrderedSet.ofList items).toList ∧
      s.found a = (OrderedSet.ofList items).toList.filter (· == a) ∧
      s.contains a = (OrderedSet.ofList items).contains a) ∧
    ∀ [LawfulCustomCondition κ],
      (∀ (j : Junction) (operands : List (Cond κ)) (c : Cond κ),
        let digest := (description hash).digest outer
        (Tally.ofList digest (operands.flatMap j.branches)).count digest c =
          j.shareCount operands c) ∧
      ∀ (place : PlaceTest κ) (a b : Cond κ), a.Reachable →
        compareByDigest place hash outer a b = (a == b) := by
  refine ⟨fun v w ↦ Value.description.digest_eq hash, fun d s t ↦
    (OrderedSet.description hash d).digest_eq outer, fun a b ↦
    ⟨beq_def a b, digest_eq_of_equal hash⟩, fun d items a ↦ ?_, ⟨fun j operands c ↦ ?_, ?_⟩⟩
  · have hitems := Indexed.items_ofList (d.digest_eq outer) items
    refine ⟨hitems, ?_, ?_⟩
    · rw [Indexed.found_eq (d.digest_eq outer), hitems]
    · rw [Indexed.contains_eq (d.digest_eq outer), hitems, OrderedSet.contains]
  · exact Tally.count_ofList ((description hash).digest_eq outer) _ c
  · exact fun place a b ha ↦ compareByDigest_eq place hash outer ha b

/-- Operands are reordered at two depths, members in a set, and numbers are spelled in other ways.
The hash function only counts tokens, so that many different things have one digest. -/
theorem digest_eq_and_lookup_spelled : ∃ (c d : Cond Marked) (s t : OrderedSet Value)
    (length : HashFunction),
    c = .or [.test ⟨"a", rfl⟩ .isTrue, .not (.and [.custom ⟨.loose, "Ab"⟩,
      .test ⟨"n", rfl⟩ (.equal (.number ⟨false, 5, 0⟩))])] ∧
    d = .or [.not (.and [.test ⟨"n", rfl⟩ (.equal (.number ⟨false, 50, 1⟩)),
      .custom ⟨.loose, "aB"⟩]), .test ⟨"a", rfl⟩ .isTrue] ∧
    s = .ofList [.number ⟨true, 0, 0⟩, .string "x"] ∧
    t = .ofList [.string "x", .number ⟨false, 0, 2⟩] ∧
    length = (fun tokens ↦ .ofNat tokens.length) ∧
    length (Value.number ⟨false, 5, 0⟩).tokens = length (Value.number ⟨false, 50, 1⟩).tokens ∧
    length (Value.setTokens standardHash s) = length (Value.setTokens standardHash t) ∧
    c.digest standardHash = d.digest standardHash ∧
    (Indexed.ofList (Value.description.digest length) [.number ⟨false, 5, 0⟩, .string "x",
      .number ⟨false, 50, 1⟩, .number ⟨false, 7, 0⟩]).found (.number ⟨false, 500, 2⟩) =
      [.number ⟨false, 5, 0⟩] ∧
    (Tally.ofList ((description standardHash).digest length) ([.and [c, .custom ⟨.bare, "v"⟩],
      .and [.custom ⟨.twin, "v"⟩, d]].flatMap Junction.or.branches)).count
        ((description standardHash).digest length) d = 2 ∧
    compareByDigest ⟨fun _ _ ↦ false, nofun⟩ standardHash length c d = true := by
  obtain ⟨length, hlength⟩ : ∃ length : HashFunction, length = fun tokens ↦ .ofNat tokens.length :=
    ⟨_, rfl⟩
  obtain ⟨hvalue, -, -, hindex, -⟩ := digest_eq_and_lookup (κ := Marked) length length
  obtain ⟨-, hset, hdigest, -, hrest⟩ := digest_eq_and_lookup (κ := Marked) standardHash length
  obtain ⟨hcount, hcompare⟩ := hrest
  refine ⟨_, _, _, _, length, rfl, rfl, rfl, rfl, hlength, hvalue _ _ ?_,
    hset Value.description _ _ ?_, (hdigest _ _).2 ((hdigest _ _).1 ▸ ?equal), ?_, ?_, ?_⟩
  · decide +kernel
  · decide +kernel
  · decide +kernel
  · refine (hindex Value.description _ _).2.1.trans ?_
    rfl
  · refine (hcount _ _ _).trans ?_
    decide +kernel
  · refine (hcompare _ _ _ ?_).trans ?equal
    exact .make_pair .or (.test _ (by decide))
      (.not (.make_pair .and (.custom _) (.test _ (by decide))))

end Cond

end Criteria
