import Criteria.Decimal.LowestTerms
import Criteria.Test

/-!
# Digests

A digest is computed by a hash function from the tokens that describe a thing. Equal things are
described by the same tokens: numbers are described in lowest terms, and a set is described by
its size and the sum of its members' digests, so that neither a spelling nor an order shows. The
digests that conditions carry are computed by the standard hash function.
-/

namespace Criteria

/-- A piece of what a hash function reads. -/
inductive Token where
  /-- What kind of thing follows. -/
  | label (name : String)
  /-- A truth value. -/
  | truth (truth : Bool)
  /-- An integer. -/
  | integer (n : Int)
  /-- A number of things. -/
  | count (n : Nat)
  /-- A text. -/
  | text (text : String)
  /-- The digest of a part. -/
  | digest (word : UInt64)
deriving DecidableEq

/-- A hash function turns tokens into a word. -/
abbrev HashFunction := List Token → UInt64

/-! ## The tokens of things -/

/-- The tokens of a number: its coefficient with the sign, and its scale, in lowest terms. -/
def Decimal.tokens (d : Decimal) : List Token :=
  let (coefficient, scale) := lowestTerms d.coefficient d.scale
  [.integer (if d.negative then -coefficient else coefficient), .count scale]

/-- The tokens of a value: its kind and its content. -/
def Value.tokens : Value → List Token
  | boolean truth => [.label "boolean", .truth truth]
  | number decimal => .label "number" :: decimal.tokens
  | string text => [.label "string", .text text]

/-- The tokens of a collection whose order does not matter: the size and the sum, wrapping
around, of the digests. -/
def unorderedTokens (digests : List UInt64) : List Token :=
  [.count digests.length, .digest (digests.foldl (· + ·) 0)]

/-- The tokens of a set of values. -/
def Value.setTokens (hash : HashFunction) (values : OrderedSet Value) : List Token :=
  unorderedTokens (values.toList.map fun value ↦ hash value.tokens)

/-- The tokens of the operand of a test. -/
def Test.tokens (hash : HashFunction) : Test → List Token
  | equal v => v.tokens
  | ordered _ v => v.tokens
  | oneOf members => Value.setTokens hash members
  | between low high => low.tokens ++ high.tokens
  | contains part => [.text part]
  | isTrue => []
  | isNull => []

/-! ## The standard hash function -/

namespace StandardHash

/-- The states of the hash function are the numbers below this prime, two to the power of 61 less
one. -/
def modulus : Nat := 0x1FFFFFFFFFFFFFFF

/-- Mixes a word into the state. The state is a factor as well, so that what was mixed in earlier
bears on what a later word does. -/
def mix (state word : Nat) : Nat := (state + word) * (state + 0x9E3779B97F4A7C15) % modulus

/-- Mixes a number of any size into the state: what is left of it below the modulus, and how often
it contains the modulus. -/
def mixNat (state n : Nat) : Nat := mix (mix state n) (n / modulus)

/-- Mixes a text into the state: its characters, and at the end their number. -/
def mixText (state : Nat) (text : String) : Nat :=
  mix (text.toList.foldl (fun state c ↦ mix state c.toNat) state) text.length

/-- Mixes a token into the state, after a word for what sort of token it is. -/
def mixToken (state : Nat) : Token → Nat
  | .label name => mixText (mix state 1) name
  | .truth truth => mix (mix state 2) (if truth then 1 else 0)
  | .integer n => mixNat (mix state (if n < 0 then 3 else 4)) n.natAbs
  | .count n => mixNat (mix state 5) n
  | .text text => mixText (mix state 6) text
  | .digest word => mixNat (mix state 7) word.toNat

end StandardHash

/-- The hash function of the digests that conditions carry. -/
@[irreducible]
def standardHash : HashFunction := fun tokens ↦
  .ofNat (tokens.foldl StandardHash.mixToken 0)

end Criteria
