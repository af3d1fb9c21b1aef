import Criteria.Text.Quoted

/-!
# Record keys

A record key names a field of a record. It consists of ASCII characters and may be empty.
-/

namespace Criteria

/-- The name of a field. -/
structure RecordKey where
  /-- The characters of the key. -/
  name : String
  /-- Every character is an ASCII character. -/
  ascii : name.toList.all (·.toNat < 128) = true
deriving DecidableEq

namespace RecordKey

/-- The key of the given name, if it is an ASCII text. -/
def ofString? (name : String) : Option RecordKey :=
  if h : name.toList.all (·.toNat < 128) = true then some ⟨name, h⟩ else none

/-- The name determines the key. -/
theorem ext {k l : RecordKey} (h : k.name = l.name) : k = l := by
  cases k
  cases l
  cases h
  rfl

/-- Reading the name of a key gives the key back. -/
@[simp] theorem ofString?_name (k : RecordKey) : ofString? k.name = some k := by
  simp [ofString?, k.ascii]

/-- A name is refused exactly if one of its characters is not ASCII. -/
theorem ofString?_eq_none_iff {name : String} :
    ofString? name = none ↔ ∃ c ∈ name.toList, 128 ≤ c.toNat := by
  simp [ofString?]

end RecordKey

end Criteria
