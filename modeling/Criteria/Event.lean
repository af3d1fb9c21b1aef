import Criteria.Decimal.OfBinary
import Criteria.Layout
import Criteria.Record

/-!
# Events

An event is a Json object that is looked at through a layout. The fields that belong to addresses
resolve to one value per address that carries them; all others are looked up in the event itself.
-/

namespace Criteria

/-- The value of a Json value, if it has one: truth values, strings, and numbers that decimals can
express do. -/
def Json.toValue? : Json → Option Value
  | .bool truth => some (.boolean truth)
  | .string text => some (.string text)
  | .number (.integer n) => some (.number (.ofInt n))
  | .number (.binary x) => (Decimal.ofBinary? x).map .number
  | _ => none

/-- The value of what stands under a key. -/
def Json.toValue (key : String) (content : Json) : Except EvaluationError Value :=
  match content.toValue? with
  | some value => .ok value
  | none => .error (.unsupportedValue key content)

/-- An event with the layout that it is looked at through. -/
structure Event where
  /-- The members of the event. -/
  members : List (String × Json)
  /-- Where the fields of its addresses are. -/
  layout : Layout

namespace Event

/-- What the first addresses to carry a field decide: the values of the field, in order, up to an
address that is not an object, holds null, or holds something that is no value. -/
def addressValues (addressKey key : String) :
    List Json → Except EvaluationError (Option (List Value))
  | [] => .ok (some [])
  | .object members :: rest =>
    match Json.lookup? members key with
    | none => addressValues addressKey key rest
    | some .null => .ok none
    | some content => do
      let value ← content.toValue key
      let others ← addressValues addressKey key rest
      return others.map (value :: ·)
  | address :: _ => .error (.unsupportedValue addressKey address)

/-- What an event holds under a key that belongs to its addresses. -/
def getAddressField (event : Event) (key : String) :
    Except EvaluationError (Option FieldValue) :=
  match Json.lookup? event.members event.layout.addressKey with
  | none => .ok none
  | some (.array addresses) => do
    match ← addressValues event.layout.addressKey key addresses with
    | none => return some .null
    | some [] => return none
    | some values => return some (.multi values)
  | some other => .error (.unsupportedValue event.layout.addressKey other)

/-- What an event holds under a key. -/
def get (event : Event) (key : String) : Except EvaluationError (Option FieldValue) :=
  if key ∈ event.layout.addressFields then event.getAddressField key
  else
    match Json.lookup? event.members key with
    | none => .ok none
    | some .null => .ok (some .null)
    | some content => do return some (.single (← content.toValue key))

/-- The event as a record. -/
def toRecord (event : Event) : Record where
  get := event.get

end Event

end Criteria
