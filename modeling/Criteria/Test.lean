import Criteria.Junction
import Criteria.Value

/-!
# Tests of a field

What a condition may ask of the field under its key: an equality, an order relation, membership,
a range, a part of a text, truth, or absence.
-/

namespace Criteria

/-- How the value of a field may have to stand to the operand of an ordering test. -/
inductive Relation where
  | greater | greaterOrEqual | less | lessOrEqual
deriving DecidableEq, Inhabited

namespace Relation

/-- Whether a value that stands to the operand in the given order passes. -/
def holds : Relation → Ordering → Bool
  | greater => Ordering.isGT
  | greaterOrEqual => Ordering.isGE
  | less => Ordering.isLT
  | lessOrEqual => Ordering.isLE

/-- The sign of the relation. -/
def sign : Relation → String
  | greater => ">"
  | greaterOrEqual => ">="
  | less => "<"
  | lessOrEqual => "<="

/-- The kind of the tests that use the relation. -/
def kind : Relation → Kind
  | greater => .greater
  | greaterOrEqual => .greaterOrEqual
  | less => .less
  | lessOrEqual => .lessOrEqual

end Relation

/-- A question about one field. -/
inductive Test where
  /-- Does the field equal the value? -/
  | equal (operand : Value)
  /-- Does the field stand to the value in the relation? -/
  | ordered (relation : Relation) (operand : Value)
  /-- Does the field equal one of the values? -/
  | oneOf (members : OrderedSet Value)
  /-- Does the field lie between the bounds, ends included? -/
  | between (low high : Value)
  /-- Is the field a text that contains the given one? -/
  | contains (part : String)
  /-- Is the field true? -/
  | isTrue
  /-- Is there no such field? -/
  | isNull
deriving Inhabited

/-- The operand of a test. -/
inductive Test.Operand where
  /-- The value that a field is compared with. -/
  | value (value : Value)
  /-- The values of which a field has to equal one. -/
  | set (members : OrderedSet Value)
  /-- The bounds that a field has to lie between. -/
  | range (low high : Value)
  /-- The text that a field has to contain. -/
  | substring (part : String)

namespace Test

/-- The kind of the conditions that ask the question. -/
def kind : Test → Kind
  | equal _ => .equal
  | ordered relation _ => relation.kind
  | oneOf _ => .oneOf
  | between _ _ => .between
  | contains _ => .contains
  | isTrue => .isTrue
  | isNull => .isNull

/-- The operand, if the test has one. -/
def operand? : Test → Option Operand
  | equal v => some (.value v)
  | ordered _ v => some (.value v)
  | oneOf members => some (.set members)
  | between low high => some (.range low high)
  | contains part => some (.substring part)
  | isTrue | isNull => none

/-- The sign or words of the test in an error message. -/
def sign : Test → String
  | equal _ => "=="
  | ordered relation _ => relation.sign
  | oneOf _ => "IN"
  | between _ _ => "BETWEEN"
  | contains _ => "CONTAINS"
  | isTrue => "IS TRUE"
  | isNull => "IS NULL"

/-- Tests are equal if they ask the same with equal operands. Sets are compared as sets, the
bounds of a range each with its counterpart. -/
instance : BEq Test where
  beq
    | equal v, equal w => v == w
    | ordered r v, ordered q w => r == q && v == w
    | oneOf s, oneOf t => s == t
    | between l h, between m k => l == m && h == k
    | contains p, contains q => p == q
    | isTrue, isTrue => true
    | isNull, isNull => true
    | _, _ => false

instance : ReflBEq Test where
  rfl {t} :=
    match t with
    | equal v => beq_self_eq_true v
    | ordered r v => Bool.and_eq_true_iff.mpr ⟨beq_self_eq_true r, beq_self_eq_true v⟩
    | oneOf s => beq_self_eq_true s
    | between l h => Bool.and_eq_true_iff.mpr ⟨beq_self_eq_true l, beq_self_eq_true h⟩
    | contains p => beq_self_eq_true p
    | isTrue => rfl
    | isNull => rfl

/-- What holds of tests that ask the same with equal operands holds of equal tests. -/
@[elab_as_elim] theorem beq_cases {motive : Test → Test → Prop}
    (equal : ∀ {v w : Value}, (v == w) = true → motive (.equal v) (.equal w))
    (ordered : ∀ relation {v w : Value}, (v == w) = true →
      motive (.ordered relation v) (.ordered relation w))
    (oneOf : ∀ {s t : OrderedSet Value}, (s == t) = true → motive (.oneOf s) (.oneOf t))
    (between : ∀ {l m h k : Value}, (l == m) = true → (h == k) = true →
      motive (.between l h) (.between m k))
    (contains : ∀ part, motive (.contains part) (.contains part))
    (isTrue : motive .isTrue .isTrue) (isNull : motive .isNull .isNull)
    {t u : Test} (h : (t == u) = true) : motive t u :=
  match t, u with
  | .equal _, .equal _ => equal h
  | .ordered r v, .ordered q w =>
    have both : r = q ∧ (v == w) = true := by
      rw [← beq_iff_eq]
      exact Bool.and_eq_true_iff.mp h
    both.1 ▸ ordered r both.2
  | .oneOf _, .oneOf _ => oneOf h
  | .between _ _, .between _ _ =>
    have both := Bool.and_eq_true_iff.mp h
    between both.1 both.2
  | .contains part, .contains other =>
    have heq : part = other := beq_iff_eq.mp h
    heq ▸ contains part
  | .isTrue, .isTrue => isTrue
  | .isNull, .isNull => isNull

/-- The test of a key as a query writes it. -/
def toText (key : String) : Test → String
  | equal v => key ++ " == " ++ v.toText
  | ordered relation v => key ++ " " ++ relation.sign ++ " " ++ v.toText
  | oneOf members => key ++ " IN (" ++ ", ".intercalate (members.toList.map Value.toText) ++ ")"
  | between low high => key ++ " BETWEEN " ++ low.toText ++ " AND " ++ high.toText
  | contains part => key ++ " CONTAINS " ++ Text.quoted part
  | isTrue => key ++ " IS TRUE"
  | isNull => key ++ " IS NULL"

/-- The operand of a test as a diagnostic writes it. -/
def Operand.toDiagnostic : Operand → String
  | value v => v.toDiagnostic
  | set members => Value.setDiagnostic members
  | range low high => "(" ++ low.toDiagnostic ++ ", " ++ high.toDiagnostic ++ ")"
  | substring part => Text.escaped part

/-- The test of a key as a diagnostic writes it. -/
def toDiagnostic (key : String) (t : Test) : String :=
  let arguments := Text.escaped key :: (t.operand?.map Operand.toDiagnostic).toList
  t.kind.label ++ "(" ++ ", ".intercalate arguments ++ ")"

/-- Every test is of a kind that tests a field. -/
@[simp] theorem isItem_kind (t : Test) : t.kind.isItem = true := by
  cases t with
  | ordered relation v => cases relation <;> rfl
  | _ => rfl

end Test

end Criteria
