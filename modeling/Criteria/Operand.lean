import Criteria.Build
import Criteria.Cond.Text

/-!
# Conditions from raw operands

A condition of any kind can be asked for with a list of operands whose shapes are not known
beforehand: nothing, values, conditions, and lists of these. Each kind accepts its own layout of
operands and says what it expected otherwise.
-/

namespace Criteria

/-- An operand of unknown shape. -/
inductive Operand (κ : Type) [CustomCondition κ] where
  /-- Nothing at all. -/
  | null
  /-- A value. -/
  | value (value : Value)
  /-- A condition. -/
  | cond (condition : Cond κ)
  /-- A list of operands. -/
  | list (items : List (Operand κ))

namespace Operand

variable {κ : Type} [CustomCondition κ]

mutual

/-- The operand as a diagnostic writes it. -/
def toDiagnostic : Operand κ → String
  | null => "Null"
  | value v => "Value(" ++ v.toDiagnostic ++ ")"
  | cond c => "Cond(" ++ c.toDiagnostic ++ ")"
  | list items => "List([" ++ ", ".intercalate (toDiagnostics items) ++ "])"

/-- The items of a list as diagnostics. -/
def toDiagnostics : List (Operand κ) → List String
  | [] => []
  | item :: rest => toDiagnostic item :: toDiagnostics rest

end

/-- Whether the operand is nothing. -/
def isNull : Operand κ → Bool
  | null => true
  | _ => false

/-- Refuses an operand at a place where something else has to stand. -/
def refuse {α : Type} (kind : Kind) (expected : Expectation) (operand : Operand κ) :
    Except BuildError α :=
  .error (.invalidOperand kind expected operand.toDiagnostic)

/-- The operand as a condition. -/
def expectCondition (kind : Kind) : Operand κ → Except BuildError (Cond κ)
  | cond c => .ok c
  | null => .error (.nullOperand kind)
  | other => refuse kind .condition other

/-- The operand as the name of a key. -/
def expectKey (kind : Kind) : Operand κ → Except BuildError String
  | value (.string key) => .ok key
  | other => refuse kind .recordKey other

/-- The operand as a truth value. -/
def expectBoolean (kind : Kind) : Operand κ → Except BuildError Bool
  | value (.boolean truth) => .ok truth
  | other => refuse kind .boolean other

/-- The operand as a text. -/
def expectString (kind : Kind) : Operand κ → Except BuildError String
  | value (.string text) => .ok text
  | other => refuse kind .string other

/-- The operand as a value of any kind. -/
def expectScalar (kind : Kind) : Operand κ → Except BuildError Value
  | value v => .ok v
  | other => refuse kind .scalar other

/-- An item of a collection as a value. -/
def expectItem (kind : Kind) : Operand κ → Except BuildError Value
  | value v => .ok v
  | null => .error (.nullOperand kind)
  | other => refuse kind .value other

/-- The operand as a collection of values. -/
def expectValues (kind : Kind) : Operand κ → Except BuildError (List Value)
  | list items => items.mapM (expectItem kind)
  | other => refuse kind .collection other

/-- The only operand of a kind that takes one. -/
def expectOne (kind : Kind) : List (Operand κ) → Except BuildError (Operand κ)
  | [operand] => .ok operand
  | operands => .error (.arity kind .one operands.length)

/-- The conditions that a junction joins: the operands, or the items of the only operand if that
is a list. -/
def expectConditions (kind : Kind) : List (Operand κ) → Except BuildError (List (Cond κ))
  | [list items] => items.mapM (expectCondition kind)
  | operands => operands.mapM (expectCondition kind)

/-- The bounds of a range. -/
def expectBounds (kind : Kind) (operand : Operand κ) : Except BuildError (Value × Value) := do
  match ← expectValues kind operand with
  | [low, high] => .ok (low, high)
  | values => .error (.arity kind .bounds values.length)

end Operand

namespace Kind

variable {κ : Type} [CustomCondition κ]

/-- The test of a field that a kind makes from one operand after the key. -/
def makeTest (kind : Kind) (key : String) (operand : Operand κ) : Except BuildError (Cond κ) := do
  match kind with
  | oneOf => Cond.isIn key (← operand.expectValues kind)
  | between =>
    let (low, high) ← operand.expectBounds kind
    Cond.between key low high
  | contains => Cond.containsSubstring key (← operand.expectString kind)
  | greater => Cond.greater key (← operand.expectScalar kind)
  | greaterOrEqual => Cond.greaterOrEqual key (← operand.expectScalar kind)
  | less => Cond.less key (← operand.expectScalar kind)
  | lessOrEqual => Cond.lessOrEqual key (← operand.expectScalar kind)
  | _ => Cond.equalTo key (← operand.expectScalar kind)

/-- The test that a kind makes from a key and any number of operands. No operand after the key
gives the constant false, several give the disjunction of one test each. -/
def makeTests (kind : Kind) : List (Operand κ) → Except BuildError (Cond κ)
  | [] => .error (.arity kind .keyAndOperands 0)
  | first :: operands => do
    let key ← first.expectKey kind
    match operands with
    | [] => .ok (.fixed false)
    | [operand] => kind.makeTest key operand
    | several =>
      if kind.acceptsSeveral then .or <$> several.mapM (kind.makeTest key)
      else .error (.severalOperands kind)

/-- The condition that a kind makes from operands. It is reduced, and so not always a condition
of that kind. -/
def make (kind : Kind) (operands : List (Operand κ)) : Except BuildError (Cond κ) :=
  if operands.any Operand.isNull then .error (.nullOperand kind)
  else
    match kind with
    | not => do return Cond.not (← (← Operand.expectOne kind operands).expectCondition kind)
    | and => Cond.and <$> Operand.expectConditions kind operands
    | or => Cond.or <$> Operand.expectConditions kind operands
    | fixed => do return Cond.fixed (← (← Operand.expectOne kind operands).expectBoolean kind)
    | isTrue => do Cond.isTrue (← (← Operand.expectOne kind operands).expectKey kind)
    | isNull => do Cond.isNull (← (← Operand.expectOne kind operands).expectKey kind)
    | _ => kind.makeTests operands

end Kind

end Criteria
