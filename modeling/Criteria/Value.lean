import Criteria.Decimal
import Criteria.OrderedSet
import Criteria.Text.Quoted

/-!
# Values

What a test compares with, and what a record holds: a truth value, a number or a text. Values of
different kinds are neither equal nor ordered.
-/

namespace Criteria

/-- A truth value, a number or a text. -/
inductive Value where
  /-- A truth value. -/
  | boolean (truth : Bool)
  /-- A number. -/
  | number (decimal : Decimal)
  /-- A text. -/
  | string (text : String)
deriving Inhabited

namespace Value

/-- The name of the kind of a value. -/
def kind : Value → String
  | boolean _ => "boolean"
  | number _ => "number"
  | string _ => "string"

/-- The truth value, if the value is one. -/
def asBoolean? : Value → Option Bool
  | boolean truth => some truth
  | _ => none

/-- The text, if the value is one. -/
def asString? : Value → Option String
  | string text => some text
  | _ => none

/-- The order within a kind: false before true, numbers by size, texts by code points. -/
def compare? : Value → Value → Option Ordering
  | boolean a, boolean b => some (compare a b)
  | number a, number b => some (compare a b)
  | string a, string b => some (compare a b)
  | _, _ => none

/-- Values are equal if they are of one kind and equal within it. -/
instance : BEq Value where
  beq
    | boolean a, boolean b => a == b
    | number a, number b => a == b
    | string a, string b => a == b
    | _, _ => false

instance : EquivBEq Value where
  rfl {v} :=
    match v with
    | boolean a => beq_self_eq_true a
    | number a => beq_self_eq_true a
    | string a => beq_self_eq_true a
  symm {v w} h :=
    match v, w with
    | boolean a, boolean b => BEq.symm (a := a) (b := b) h
    | number a, number b => BEq.symm (a := a) (b := b) h
    | string a, string b => BEq.symm (a := a) (b := b) h
  trans {v w u} hvw hwu :=
    match v, w, u with
    | boolean a, boolean b, boolean c => BEq.trans (a := a) (b := b) (c := c) hvw hwu
    | number a, number b, number c => BEq.trans (a := a) (b := b) (c := c) hvw hwu
    | string a, string b, string c => BEq.trans (a := a) (b := b) (c := c) hvw hwu

/-- The text of a truth value. -/
def truthText (truth : Bool) : String := if truth then "true" else "false"

/-- The value as a query writes it. -/
def toText : Value → String
  | boolean truth => truthText truth
  | number decimal => decimal.toText
  | string text => Text.quoted text

/-- The value as a diagnostic writes it. -/
def toDiagnostic : Value → String
  | boolean truth => truthText truth
  | number decimal => decimal.toText
  | string text => Text.escaped text

/-- A set of values as a diagnostic writes it. -/
def setDiagnostic (values : OrderedSet Value) : String :=
  "\x7b" ++ ", ".intercalate (values.toList.map toDiagnostic) ++ "\x7d"

end Value

end Criteria
