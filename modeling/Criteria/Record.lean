import Criteria.Json
import Criteria.Value

/-!
# Records

A record answers what it holds under a key. It may hold nothing, a null, one value, or several
values at once, and it may fail to answer.
-/

namespace Criteria

/-- What a record holds under a key that is present. -/
inductive FieldValue where
  /-- The field is there, but is null. -/
  | null
  /-- One value. -/
  | single (value : Value)
  /-- Several values at once, or none. -/
  | multi (values : List Value)
deriving Inhabited

/-- Why a condition has no truth value on a record. -/
inductive EvaluationError where
  /-- The field is there, but is null. -/
  | nullValue (key : String)
  /-- The test with the given sign does not apply to a value of this kind. -/
  | typeMismatch (key : String) (sign : String) (value : Value)
  /-- The record holds something that is no value. -/
  | unsupportedValue (key : String) (content : Json)

/-- The wording of a failed evaluation. -/
def EvaluationError.message : EvaluationError → String
  | nullValue key => "record key " ++ Text.escaped key ++ " holds a null value"
  | typeMismatch key sign value =>
    Text.escaped key ++ ": operator " ++ sign ++ " cannot be applied to " ++ value.toText ++
      " (" ++ value.kind ++ ")"
  | unsupportedValue key content =>
    Text.escaped key ++ ": unsupported record value " ++ content.compress

/-- A record, as far as conditions can see it. -/
structure Record where
  /-- What the record holds under a key, if the key is present. -/
  get : String → Except EvaluationError (Option FieldValue)

/-- The record of a list of fields, of which the first with a key counts. -/
def Record.ofFields (fields : List (String × FieldValue)) : Record where
  get key := .ok (fields.lookup key)

end Criteria
