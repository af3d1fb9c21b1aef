import Criteria.Cond.Comparison
import Criteria.Error

/-!
# Constructing conditions

The functions that every condition is built with. They reduce as they build: a negation is never
put over a negation or a constant, and a junction drops neutral operands, takes over the operands
of operands of its own kind, keeps one of several equal operands, and collapses if it is decided
by a constant or by a condition next to its own negation.
-/

namespace Criteria

variable {κ : Type} [CustomCondition κ]

namespace Cond

/-- The negation: a constant is flipped, and a negation gives back what it negates. -/
def not : Cond κ → Cond κ
  | fixed truth => fixed !truth
  | negation operand => operand
  | operand => negation operand

end Cond

namespace Junction

/-- What an operand contributes to the junction: nothing if it is neutral, its own operands if it
is a junction of the same kind, and otherwise itself. -/
def parts (j : Junction) (operand : Cond κ) : List (Cond κ) :=
  match operand with
  | .fixed truth => if truth = j.neutral then [] else [operand]
  | .compound i operands => if i = j then operands else [operand]
  | _ => [operand]

/-- The different conditions that a list of operands contributes, in order. -/
def flatten (j : Junction) (operands : List (Cond κ)) : OrderedSet (Cond κ) :=
  .ofList (operands.flatMap j.parts)

/-- Whether some condition of the set has its negation in the set. -/
def isContradictory (operands : OrderedSet (Cond κ)) : Bool :=
  operands.toList.any fun operand ↦ operands.contains operand.not

/-- Whether the different operands decide the junction whatever the record: the absorbing
constant is among them, or a condition and its negation are. -/
def isDecided (j : Junction) (operands : OrderedSet (Cond κ)) : Bool :=
  operands.contains (.fixed j.absorbing) || isContradictory operands

/-- The junction of the given operands. -/
def make (j : Junction) (operands : List (Cond κ)) : Cond κ :=
  let different := j.flatten operands
  match different.toList with
  | [] => .fixed j.neutral
  | [only] => only
  | several => if j.isDecided different then .fixed j.absorbing else .compound j several

/-- An operand is neutral and contributes nothing, or is a junction of the same kind and contributes
its operands, or contributes itself. -/
theorem parts_cases (j : Junction) (operand : Cond κ) :
    (operand = .fixed j.neutral ∧ j.parts operand = []) ∨
      (∃ operands, operand = .compound j operands ∧ j.parts operand = operands) ∨
      j.parts operand = [operand] := by
  cases operand with
  | fixed truth =>
    rw [parts]
    split
    · next heq => exact .inl ⟨by rw [heq], rfl⟩
    · exact .inr (.inr rfl)
  | compound i operands =>
    rw [parts]
    split
    · next heq => exact .inr (.inl ⟨operands, by rw [heq], rfl⟩)
    · exact .inr (.inr rfl)
  | test key t => exact .inr (.inr rfl)
  | custom leaf => exact .inr (.inr rfl)
  | negation inner => exact .inr (.inr rfl)

/-- Each of the different operands is contributed by one of the given ones. -/
theorem exists_mem_parts_of_mem_flatten {j : Junction} {operands : List (Cond κ)} {c : Cond κ}
    (h : c ∈ (j.flatten operands).toList) : ∃ operand ∈ operands, c ∈ j.parts operand :=
  List.mem_flatMap.mp ((OrderedSet.toList_ofList_sublist _).subset h)

/-- The ways in which building a junction ends, depending on the different operands: with the
neutral constant, the only operand, the absorbing constant, or a compound. -/
@[elab_as_elim] theorem make_cases {motive : Cond κ → Prop} (j : Junction)
    (operands : List (Cond κ))
    (none : (j.flatten operands).toList = [] → motive (.fixed j.neutral))
    (only : ∀ c, (j.flatten operands).toList = [c] → motive c)
    (decided : j.isDecided (j.flatten operands) = true → motive (.fixed j.absorbing))
    (several : 2 ≤ (j.flatten operands).toList.length →
      j.isDecided (j.flatten operands) = false →
      motive (.compound j (j.flatten operands).toList)) :
    motive (j.make operands) := by
  unfold make
  dsimp only
  split
  · next hnil => exact none hnil
  · next c hsingle => exact only c hsingle
  · next hnil hsingle =>
    split
    · next hdecided => exact decided hdecided
    · next hdecided =>
      apply several _ (Bool.eq_false_iff.mpr hdecided)
      cases hlist : (j.flatten operands).toList with
      | nil => exact absurd hlist hnil
      | cons c rest =>
        cases rest with
        | nil => exact absurd hlist (hsingle c)
        | cons d rest => simp

end Junction

namespace Cond

/-- The conjunction of the given conditions. -/
def and (operands : List (Cond κ)) : Cond κ := Junction.and.make operands

/-- The disjunction of the given conditions. -/
def or (operands : List (Cond κ)) : Cond κ := Junction.or.make operands

/-- Membership in the values of a list. No value gives the constant false, and one value, however
often it is repeated, gives an equality. -/
def memberOf (key : RecordKey) (values : List Value) : Cond κ :=
  let members := OrderedSet.ofList values
  match members.toList with
  | [] => fixed false
  | [only] => test key (.equal only)
  | _ => test key (.oneOf members)

/-- The ways in which a test of membership is built, depending on the different values. -/
@[elab_as_elim] theorem memberOf_cases {motive : Cond κ → Prop} (key : RecordKey)
    (values : List Value)
    (none : (OrderedSet.ofList values).toList = [] → motive (fixed false))
    (only : ∀ v, (OrderedSet.ofList values).toList = [v] → motive (test key (.equal v)))
    (several : 2 ≤ (OrderedSet.ofList values).toList.length →
      motive (test key (.oneOf (.ofList values)))) : motive (memberOf key values) := by
  unfold memberOf
  dsimp only
  split
  · next hnil => exact none hnil
  · next v hsingle => exact only v hsingle
  · next hnil hsingle =>
    apply several
    cases hlist : (OrderedSet.ofList values).toList with
    | nil => exact absurd hlist hnil
    | cons v rest =>
      cases rest with
      | nil => exact absurd hlist (hsingle v)
      | cons w rest => simp

/-- The key of the given name; building stops if the name is not an ASCII text. -/
def checkKey (key : String) : Except BuildError RecordKey :=
  match RecordKey.ofString? key with
  | some key => .ok key
  | none => .error (.nonAsciiKey key)

/-- A key is accepted under its own name. -/
@[simp] theorem checkKey_name (key : RecordKey) : checkKey key.name = .ok key := by
  rw [checkKey, RecordKey.ofString?_name]

/-- A name with a character that is not ASCII is refused. -/
theorem checkKey_eq_error {key : String} (h : ∃ ch ∈ key.toList, 128 ≤ ch.toNat) :
    checkKey key = .error (.nonAsciiKey key) := by
  rw [checkKey, RecordKey.ofString?_eq_none_iff.mpr h]

/-- Puts a test to the field under a key. -/
def ofTest (key : String) (t : Test) : Except BuildError (Cond κ) :=
  (checkKey key).map fun key ↦ test key t

/-- A test is put to the field under a key. -/
theorem ofTest_name (key : RecordKey) (t : Test) :
    ofTest key.name t = .ok (test key t : Cond κ) := by
  rw [ofTest, checkKey_name]
  rfl

/-- No test is put to a field under a name with a character that is not ASCII. -/
theorem ofTest_eq_error {key : String} (h : ∃ ch ∈ key.toList, 128 ≤ ch.toNat) (t : Test) :
    ofTest key t = (.error (.nonAsciiKey key) : Except BuildError (Cond κ)) := by
  rw [ofTest, checkKey_eq_error h]
  rfl

/-- The field equals the value. -/
def equalTo (key : String) (v : Value) : Except BuildError (Cond κ) := ofTest key (.equal v)

/-- The field is greater than the value. -/
def greater (key : String) (v : Value) : Except BuildError (Cond κ) :=
  ofTest key (.ordered .greater v)

/-- The field is greater than the value or equal to it. -/
def greaterOrEqual (key : String) (v : Value) : Except BuildError (Cond κ) :=
  ofTest key (.ordered .greaterOrEqual v)

/-- The field is less than the value. -/
def less (key : String) (v : Value) : Except BuildError (Cond κ) :=
  ofTest key (.ordered .less v)

/-- The field is less than the value or equal to it. -/
def lessOrEqual (key : String) (v : Value) : Except BuildError (Cond κ) :=
  ofTest key (.ordered .lessOrEqual v)

/-- The field equals one of the values. -/
def isIn (key : String) (values : List Value) : Except BuildError (Cond κ) :=
  (checkKey key).map fun key ↦ memberOf key values

/-- Membership of the field under a key is tested. -/
theorem isIn_name (key : RecordKey) (values : List Value) :
    isIn key.name values = .ok (memberOf key values : Cond κ) := by
  rw [isIn, checkKey_name]
  rfl

/-- Membership is not tested under a name with a character that is not ASCII, not even membership
in no values. -/
theorem isIn_eq_error {key : String} (h : ∃ ch ∈ key.toList, 128 ≤ ch.toNat)
    (values : List Value) :
    isIn key values = (.error (.nonAsciiKey key) : Except BuildError (Cond κ)) := by
  rw [isIn, checkKey_eq_error h]
  rfl

/-- The field lies between the bounds, ends included. The bounds stay in the given order. -/
def between (key : String) (low high : Value) : Except BuildError (Cond κ) :=
  ofTest key (.between low high)

/-- The field is a text that contains the given one. -/
def containsSubstring (key part : String) : Except BuildError (Cond κ) :=
  ofTest key (.contains part)

/-- The field is true. -/
def isTrue (key : String) : Except BuildError (Cond κ) := ofTest key .isTrue

/-- The record has no such field. -/
def isNull (key : String) : Except BuildError (Cond κ) := ofTest key .isNull

end Cond

end Criteria
