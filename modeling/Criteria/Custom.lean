import Criteria.Digest

/-!
# Custom conditions

A program that uses conditions may add leaves of its own. The library asks of such a leaf only
what is listed here.
-/

namespace Criteria

/-- What a type of conditions defined elsewhere provides. -/
class CustomCondition (κ : Type) where
  /-- The name by which diagnostics and error messages call the condition. -/
  label : κ → String
  /-- Whether two conditions of one label are equal. -/
  same : κ → κ → Bool
  /-- The condition as a diagnostic writes it. -/
  toDiagnostic : κ → String
  /-- The condition as a query writes it. -/
  toText : κ → String
  /-- What describes the condition to a hash function, besides its label. -/
  tokens : κ → List Token
  /-- A condition equals itself. -/
  same_refl : ∀ a : κ, same a a = true
  /-- Equal conditions are described by the same tokens. -/
  tokens_eq : ∀ {a b : κ}, label a = label b → same a b = true → tokens a = tokens b

/-- Custom conditions are equal if they have one label and are the same within it. -/
def CustomCondition.equal {κ : Type} [CustomCondition κ] (a b : κ) : Bool :=
  label a == label b && same a b

/-- Every custom condition equals itself. -/
theorem CustomCondition.equal_refl {κ : Type} [CustomCondition κ] (a : κ) : equal a a = true := by
  rw [equal, beq_self_eq_true, same_refl, Bool.and_true]

/-- Equal custom conditions have one label and the same tokens. -/
theorem CustomCondition.label_eq_and_tokens_eq {κ : Type} [CustomCondition κ] {a b : κ}
    (h : equal a b = true) : label a = label b ∧ tokens a = tokens b := by
  rw [equal, Bool.and_eq_true, beq_iff_eq] at h
  exact ⟨h.1, tokens_eq h.1 h.2⟩

/-- Custom conditions whose equality is an equivalence. -/
class LawfulCustomCondition (κ : Type) [CustomCondition κ] : Prop where
  /-- Equality does not depend on the side. -/
  equal_symm : ∀ {a b : κ}, CustomCondition.equal a b = true → CustomCondition.equal b a = true
  /-- Conditions equal to the same one are equal. -/
  equal_trans : ∀ {a b c : κ}, CustomCondition.equal a b = true →
    CustomCondition.equal b c = true → CustomCondition.equal a c = true

/-- There need not be any custom conditions. -/
instance : CustomCondition Empty where
  label := nofun
  same := nofun
  toDiagnostic := nofun
  toText := nofun
  tokens := nofun
  same_refl := nofun
  tokens_eq {a} := nomatch a

instance : LawfulCustomCondition Empty where
  equal_symm := fun {a} ↦ nomatch a
  equal_trans := fun {a} ↦ nomatch a

/-- A custom condition that is told from others by its tag. -/
structure Tagged where
  /-- The tag. -/
  tag : String
deriving DecidableEq

instance : CustomCondition Tagged where
  label _ := "TaggedCond"
  same a b := a.tag == b.tag
  toDiagnostic a := "Tagged(" ++ Text.escaped a.tag ++ ")"
  toText a := "tagged(" ++ a.tag ++ ")"
  tokens a := [.text a.tag]
  same_refl a := beq_self_eq_true a.tag
  tokens_eq _ h := by rw [eq_of_beq h]

private theorem Tagged.equal_iff {a b : Tagged} :
    CustomCondition.equal a b = true ↔ a.tag = b.tag := by
  simp [CustomCondition.equal, CustomCondition.label, CustomCondition.same]

instance : LawfulCustomCondition Tagged where
  equal_symm h := Tagged.equal_iff.mpr (Tagged.equal_iff.mp h).symm
  equal_trans hab hbc :=
    Tagged.equal_iff.mpr ((Tagged.equal_iff.mp hab).trans (Tagged.equal_iff.mp hbc))

/-- The ways in which a marked condition may treat its tag. -/
inductive Mark where
  /-- The tag is compared as it is. -/
  | tagged
  /-- The tag is compared as it is, under the label of the tagged conditions. -/
  | twin
  /-- The tag is compared without regard to the case of ASCII letters. -/
  | loose
  /-- The tag is not compared. -/
  | bare
deriving DecidableEq

/-- A custom condition of one of several kinds. Conditions of different kinds are different, even
where the kinds share a label. -/
structure Marked where
  /-- The kind. -/
  mark : Mark
  /-- The tag. -/
  tag : String

/-- What is compared of the tag. -/
def Marked.seen : Marked → String
  | ⟨.tagged, tag⟩ | ⟨.twin, tag⟩ => tag
  | ⟨.loose, tag⟩ => String.ofList (tag.toList.map Char.toLower)
  | ⟨.bare, _⟩ => ""

instance : CustomCondition Marked where
  label
    | ⟨.tagged, _⟩ | ⟨.twin, _⟩ => "TaggedCond"
    | ⟨.loose, _⟩ => "LooseCond"
    | ⟨.bare, _⟩ => "OpaqueCond"
  same a b := a.mark == b.mark && a.seen == b.seen
  toDiagnostic
    | ⟨.tagged, tag⟩ => "Tagged(" ++ Text.escaped tag ++ ")"
    | ⟨.twin, tag⟩ => "Alias(" ++ Text.escaped tag ++ ")"
    | ⟨.loose, tag⟩ => "Loose(" ++ Text.escaped tag ++ ")"
    | ⟨.bare, _⟩ => "Opaque"
  toText
    | ⟨.tagged, tag⟩ => "tagged(" ++ tag ++ ")"
    | ⟨.twin, tag⟩ => "alias(" ++ tag ++ ")"
    | ⟨.loose, tag⟩ => "loose(" ++ tag ++ ")"
    | ⟨.bare, _⟩ => "opaque"
  tokens a := if a.mark = .bare then [] else [.text a.seen]
  same_refl a := by rw [beq_self_eq_true, beq_self_eq_true, Bool.and_true]
  tokens_eq _ h := by
    rw [Bool.and_eq_true, beq_iff_eq, beq_iff_eq] at h
    rw [h.1, h.2]

private theorem Marked.equal_iff {a b : Marked} :
    CustomCondition.equal a b = true ↔ a.mark = b.mark ∧ a.seen = b.seen := by
  obtain ⟨mark, tag⟩ := a
  obtain ⟨mark', tag'⟩ := b
  simp only [CustomCondition.equal, CustomCondition.same, Bool.and_eq_true, beq_iff_eq,
    and_iff_right_iff_imp]
  rintro ⟨rfl, -⟩
  cases mark <;> rfl

instance : LawfulCustomCondition Marked where
  equal_symm h :=
    have ⟨hmark, hseen⟩ := Marked.equal_iff.mp h
    Marked.equal_iff.mpr ⟨hmark.symm, hseen.symm⟩
  equal_trans hab hbc :=
    have ⟨hmark, hseen⟩ := Marked.equal_iff.mp hab
    have ⟨hmark', hseen'⟩ := Marked.equal_iff.mp hbc
    Marked.equal_iff.mpr ⟨hmark.trans hmark', hseen.trans hseen'⟩

end Criteria
