import Criteria.Cond.Equality
import Criteria.Digest.Agreement

/-!
# Digests of conditions

The digest of a condition depends on its shape only up to what equality ignores: the operands of a
compound enter with the sum of their digests. Main statement: equal conditions have one digest,
whatever the hash function. The digest that a condition carries is the one by the standard hash
function.
-/

namespace Criteria.Cond

variable {κ : Type} [CustomCondition κ]

mutual

/-- The digest of a condition. -/
def digest (hash : HashFunction) : Cond κ → UInt64
  | fixed truth => hash [.label Kind.fixed.label, .truth truth]
  | test key t =>
    hash (.label t.kind.label :: .text key.name :: t.tokens hash)
  | custom leaf =>
    hash (.label (CustomCondition.label leaf) :: CustomCondition.tokens leaf)
  | negation operand =>
    hash [.label Kind.not.label, .digest (digest hash operand)]
  | compound j operands =>
    hash (.label j.kind.label :: unorderedTokens (digests hash operands))

/-- The digests of the members of a set of conditions, each hashed once more. -/
def digests (hash : HashFunction) : List (Cond κ) → List UInt64
  | [] => []
  | operand :: rest => hash [.digest (digest hash operand)] :: digests hash rest

end

private theorem digests_eq_map (hash : HashFunction) (operands : List (Cond κ)) :
    digests hash operands = operands.map fun operand ↦ hash [.digest (operand.digest hash)] := by
  induction operands with
  | nil => rfl
  | cons operand rest ih => rw [digests, ih, List.map_cons]

/-- The digest that a condition carries is the one by the standard hash function. -/
theorem standardDigest_eq_digest (c : Cond κ) : c.standardDigest = c.digest standardHash := by
  induction c with
  | fixed truth => rw [standardDigest, digest]
  | test key t => rw [standardDigest, digest]
  | custom leaf => rw [standardDigest, digest]
  | negation operand ih => rw [standardDigest, digest, ih]
  | compound j operands ih =>
    have hmap : (operands.attach.map fun operand ↦
        standardHash [.digest (standardDigest κ _ operand.1)]) = digests standardHash operands := by
      rw [digests_eq_map, ← List.attach_map_val (l := operands)]
      exact List.map_congr_left fun operand _ ↦ by rw [ih operand.1 operand.2]
    rw [standardDigest, digest, ← hmap]

/-- Equal conditions have one digest, whatever the hash function. -/
theorem digest_eq_of_equal (hash : HashFunction) {a b : Cond κ} (h : equal a b = true) :
    a.digest hash = b.digest hash := by
  refine equal_induction ?_ ?_ ?_ ?_ ?_ h
  · exact fun _ ↦ rfl
  · intro key t u htest
    obtain ⟨hkind, htokens⟩ := Test.tokens_eq hash htest
    rw [digest, digest, hkind, htokens]
  · intro leaf other hcustom
    obtain ⟨hlabel, htokens⟩ := CustomCondition.label_eq_and_tokens_eq hcustom
    rw [digest, digest, hlabel, htokens]
  · intro operand other ih
    rw [digest, digest, ih]
  · intro j operands others ih hpairs
    rw [digest, digest, digests_eq_map, digests_eq_map]
    congr 2
    apply unorderedTokens_perm
    apply map_perm_of_pairUp _ hpairs
    intro operand hmem other hequal
    rw [ih operand hmem other hequal]

end Criteria.Cond
