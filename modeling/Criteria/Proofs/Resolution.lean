import Criteria.Event
import Criteria.Proofs.Traversal

/-!
# What the fields of addresses resolve to

An address may carry a field, may be without it, or may spoil it for the whole event. The addresses
of an event are looked at in order, up to the first one that spoils the field. Main statement: a
rule for each of the ways in which a key that belongs to the addresses is resolved, which together
say exactly what the event holds under the key.
-/

namespace Criteria.Event

variable {addressKey key : String}

/-! ## Addresses -/

/-- The addresses that spoil a field, and what the field of the event then resolves to. An address
is an object, and it does not hold null or anything else that is no value under the key. -/
inductive Spoils (addressKey key : String) :
    Json → Except EvaluationError (Option FieldValue) → Prop
  | noObject {address : Json} (h : ∀ members, address ≠ .object members) :
    Spoils addressKey key address (.error (.unsupportedValue addressKey address))
  | null {members : List (String × Json)} (h : Json.lookup? members key = some .null) :
    Spoils addressKey key (.object members) (.ok (some .null))
  | noValue {members : List (String × Json)} {content : Json}
      (h : Json.lookup? members key = some content) (hnull : content ≠ .null)
      (hvalue : content.toValue? = none) :
    Spoils addressKey key (.object members) (.error (.unsupportedValue key content))

/-- An address that spoils the field. -/
def Spoiled (addressKey key : String) (address : Json) : Prop :=
  ∃ outcome, Spoils addressKey key address outcome

/-- The value that an address carries under a key, if it carries one. -/
def carried? (key : String) : Json → Option Value
  | .object members => (Json.lookup? members key).bind Json.toValue?
  | _ => none

private theorem not_spoiled_iff {address : Json} : ¬Spoiled addressKey key address ↔
    ∃ members, address = .object members ∧ (Json.lookup? members key = none ∨
      ∃ content value, Json.lookup? members key = some content ∧
        content.toValue? = some value) := by
  constructor
  · intro h
    by_cases hobject : ∃ members, address = .object members
    · obtain ⟨members, rfl⟩ := hobject
      refine ⟨members, rfl, ?_⟩
      cases hlookup : Json.lookup? members key with
      | none => exact .inl rfl
      | some content =>
        cases hvalue : content.toValue? with
        | some value => exact .inr ⟨content, value, rfl, hvalue⟩
        | none =>
          by_cases hnull : content = .null
          · exact absurd ⟨_, .null (hnull ▸ hlookup)⟩ h
          · exact absurd ⟨_, .noValue hlookup hnull hvalue⟩ h
    · exact absurd ⟨_, .noObject fun members heq ↦ hobject ⟨members, heq⟩⟩ h
  · rintro ⟨members, rfl, hholds⟩ ⟨outcome, hspoils⟩
    cases hspoils with
    | noObject hobject => exact hobject members rfl
    | null hnull =>
      rw [hnull] at hholds
      rcases hholds with hnone | ⟨content, value, hsome, hvalue⟩
      · cases hnone
      · cases hsome
        cases hvalue
    | noValue hcontent hnull hnovalue =>
      rw [hcontent] at hholds
      rcases hholds with hnone | ⟨content, value, hsome, hvalue⟩
      · cases hnone
      · cases hsome
        rw [hnovalue] at hvalue
        cases hvalue

/-! ## Lists of addresses -/

private theorem exists_first_spoiled {addresses : List Json}
    (h : ¬∀ address ∈ addresses, ¬Spoiled addressKey key address) :
    ∃ before address after, addresses = before ++ address :: after ∧
      (∀ other ∈ before, ¬Spoiled addressKey key other) ∧ Spoiled addressKey key address := by
  induction addresses with
  | nil => exact absurd (fun _ hmem ↦ nomatch hmem) h
  | cons address rest ih =>
    by_cases hspoiled : Spoiled addressKey key address
    · exact ⟨[], address, rest, rfl, List.forall_mem_nil _, hspoiled⟩
    · rw [List.forall_mem_cons, not_and] at h
      obtain ⟨before, found, after, rfl, hbefore, hfound⟩ := ih (h hspoiled)
      exact ⟨address :: before, found, after, rfl, List.forall_mem_cons.mpr ⟨hspoiled, hbefore⟩,
        hfound⟩

private theorem addressValues_cons_absent {members : List (String × Json)}
    (h : Json.lookup? members key = none) (rest : List Json) :
    addressValues addressKey key (.object members :: rest) = addressValues addressKey key rest := by
  rw [addressValues, h]

private theorem addressValues_cons_content {members : List (String × Json)} {content : Json}
    (h : Json.lookup? members key = some content) (hnull : content ≠ .null) (rest : List Json) :
    addressValues addressKey key (.object members :: rest) = (do
      let value ← content.toValue key
      Option.map (value :: ·) <$> addressValues addressKey key rest) := by
  rw [addressValues, h]
  cases content with
  | null => exact absurd rfl hnull
  | _ => rfl

private theorem addressValues_cons_value {members : List (String × Json)} {content : Json}
    {value : Value}
    (h : Json.lookup? members key = some content) (hvalue : content.toValue? = some value)
    (rest : List Json) : addressValues addressKey key (.object members :: rest) =
      Option.map (value :: ·) <$> addressValues addressKey key rest := by
  have hnull : content ≠ .null := by
    rintro rfl
    cases hvalue
  rw [addressValues_cons_content h hnull, Json.toValue, hvalue]
  rfl

/-- An address that spoils the field ends the search for its values. -/
theorem addressValues_of_spoils {address : Json}
    {outcome : Except EvaluationError (Option FieldValue)}
    (h : Spoils addressKey key address outcome) (rest : List Json) :
    (∃ e, outcome = .error e ∧ addressValues addressKey key (address :: rest) = .error e) ∨
      (outcome = .ok (some .null) ∧
        addressValues addressKey key (address :: rest) = .ok none) := by
  cases h with
  | noObject hobject =>
    refine .inl ⟨_, rfl, ?_⟩
    cases address with
    | object members => exact absurd rfl (hobject members)
    | _ => rw [addressValues]; nofun
  | null hlookup =>
    refine .inr ⟨rfl, ?_⟩
    rw [addressValues, hlookup]
  | noValue hlookup hnull hvalue =>
    refine .inl ⟨_, rfl, ?_⟩
    rw [addressValues_cons_content hlookup hnull, Json.toValue, hvalue]
    rfl

/-- If no address spoils the field, the values are those that the addresses carry. -/
theorem addressValues_eq_filterMap {addresses : List Json}
    (h : ∀ address ∈ addresses, ¬Spoiled addressKey key address) :
    addressValues addressKey key addresses = .ok (some (addresses.filterMap (carried? key))) := by
  induction addresses with
  | nil => rfl
  | cons address rest ih =>
    rw [List.forall_mem_cons] at h
    obtain ⟨members, rfl, hnone | ⟨content, value, hsome, hvalue⟩⟩ := not_spoiled_iff.mp h.1
    · have hcarried : carried? key (.object members) = none := by rw [carried?, hnone]; rfl
      rw [addressValues_cons_absent hnone, ih h.2, List.filterMap_cons_none hcarried]
    · have hcarried : carried? key (.object members) = some value := by
        rw [carried?, hsome]
        exact hvalue
      rw [addressValues_cons_value hsome hvalue, ih h.2, List.filterMap_cons_some hcarried]
      rfl

/-- If the values of the first addresses are found, those of further addresses come after them. -/
theorem addressValues_append {addresses : List Json} {values : List Value}
    (h : addressValues addressKey key addresses = .ok (some values)) (more : List Json) :
    addressValues addressKey key (addresses ++ more) =
      Option.map (values ++ ·) <$> addressValues addressKey key more := by
  induction addresses generalizing values with
  | nil =>
    cases h
    rw [List.nil_append]
    rcases addressValues addressKey key more with e | _ | others <;> rfl
  | cons address rest ih =>
    by_cases hspoiled : Spoiled addressKey key address
    · obtain ⟨outcome, hspoils⟩ := hspoiled
      rcases addressValues_of_spoils hspoils rest with ⟨e, -, heq⟩ | ⟨-, heq⟩
      · rw [heq] at h
        cases h
      · rw [heq] at h
        cases h
    · obtain ⟨members, rfl, hnone | ⟨content, value, hsome, hvalue⟩⟩ :=
        not_spoiled_iff.mp hspoiled
      · rw [addressValues_cons_absent hnone] at h
        rw [List.cons_append, addressValues_cons_absent hnone, ih h]
      · rw [addressValues_cons_value hsome hvalue] at h
        obtain ⟨found?, hrest, hfound⟩ := map_eq_ok_iff.mp h
        obtain ⟨others, rfl, rfl⟩ := Option.map_eq_some_iff.mp hfound
        rw [List.cons_append, addressValues_cons_value hsome hvalue, ih hrest]
        rcases addressValues addressKey key more with e | _ | last <;> rfl

/-! ## Events -/

/-- What a key that belongs to the addresses of an event resolves to. -/
inductive Resolves (event : Event) (key : String) :
    Except EvaluationError (Option FieldValue) → Prop
  | noAddresses (h : Json.lookup? event.members event.layout.addressKey = none) :
    Resolves event key (.ok none)
  | noArray {content : Json} (h : Json.lookup? event.members event.layout.addressKey = some content)
      (harray : ∀ addresses, content ≠ .array addresses) :
    Resolves event key (.error (.unsupportedValue event.layout.addressKey content))
  | spoiled {before after : List Json} {address : Json}
      {outcome : Except EvaluationError (Option FieldValue)}
      (h : Json.lookup? event.members event.layout.addressKey =
        some (.array (before ++ address :: after)))
      (hbefore : ∀ other ∈ before, ¬Spoiled event.layout.addressKey key other)
      (hspoils : Spoils event.layout.addressKey key address outcome) :
    Resolves event key outcome
  | carriedByNone {addresses : List Json}
      (h : Json.lookup? event.members event.layout.addressKey = some (.array addresses))
      (hsound : ∀ address ∈ addresses, ¬Spoiled event.layout.addressKey key address)
      (hnone : addresses.filterMap (carried? key) = []) :
    Resolves event key (.ok none)
  | carriedBySome {addresses : List Json} {values : List Value}
      (h : Json.lookup? event.members event.layout.addressKey = some (.array addresses))
      (hsound : ∀ address ∈ addresses, ¬Spoiled event.layout.addressKey key address)
      (hvalues : addresses.filterMap (carried? key) = values) (hsome : values ≠ []) :
    Resolves event key (.ok (some (.multi values)))

/-- The field that the values found in the addresses make up. -/
def fieldOfFound : Option (List Value) → Option FieldValue
  | none => some .null
  | some [] => none
  | some values => some (.multi values)

variable {event : Event}

/-- The addresses of an event are searched for the values of a field. -/
theorem getAddressField_of_array {addresses : List Json}
    (h : Json.lookup? event.members event.layout.addressKey = some (.array addresses)) :
    event.getAddressField key =
      fieldOfFound <$> addressValues event.layout.addressKey key addresses := by
  rw [getAddressField, h]
  dsimp only
  rcases addressValues event.layout.addressKey key addresses with e | _ | _ | values <;> rfl

/-- Each rule tells what the event holds under the key. -/
theorem getAddressField_of_resolves {outcome : Except EvaluationError (Option FieldValue)}
    (h : event.Resolves key outcome) : event.getAddressField key = outcome := by
  cases h with
  | noAddresses h => rw [getAddressField, h]
  | @noArray content h harray =>
    rw [getAddressField, h]
    cases content with
    | array addresses => exact absurd rfl (harray addresses)
    | _ => rfl
  | @spoiled before after address _ h hbefore hspoils =>
    rw [getAddressField_of_array h, addressValues_append (addressValues_eq_filterMap hbefore)]
    rcases addressValues_of_spoils hspoils after with ⟨e, rfl, heq⟩ | ⟨rfl, heq⟩
    · rw [heq]
      rfl
    · rw [heq]
      rfl
  | carriedByNone h hsound hnone =>
    rw [getAddressField_of_array h, addressValues_eq_filterMap hsound, hnone]
    rfl
  | @carriedBySome addresses values h hsound hvalues hsome =>
    rw [getAddressField_of_array h, addressValues_eq_filterMap hsound, hvalues]
    cases values with
    | nil => exact absurd rfl hsome
    | cons value rest => rfl

/-- One of the rules applies to every event. -/
theorem exists_resolves (event : Event) (key : String) :
    ∃ outcome, event.Resolves key outcome := by
  cases hlookup : Json.lookup? event.members event.layout.addressKey with
  | none => exact ⟨_, .noAddresses hlookup⟩
  | some content =>
    by_cases harray : ∃ addresses, content = .array addresses
    · obtain ⟨addresses, rfl⟩ := harray
      by_cases hsound : ∀ address ∈ addresses, ¬Spoiled event.layout.addressKey key address
      · by_cases hnone : addresses.filterMap (carried? key) = []
        · exact ⟨_, .carriedByNone hlookup hsound hnone⟩
        · exact ⟨_, .carriedBySome hlookup hsound rfl hnone⟩
      · obtain ⟨before, address, after, rfl, hbefore, outcome, hspoils⟩ :=
          exists_first_spoiled hsound
        exact ⟨outcome, .spoiled hlookup hbefore hspoils⟩
    · exact ⟨_, .noArray hlookup fun addresses heq ↦ harray ⟨addresses, heq⟩⟩

/-- No rule gives a field of no values. -/
theorem Resolves.ne_multi_nil {outcome : Except EvaluationError (Option FieldValue)}
    (h : event.Resolves key outcome) : outcome ≠ .ok (some (.multi [])) := by
  cases h with
  | noAddresses h => nofun
  | noArray h harray => nofun
  | spoiled h hbefore hspoils => cases hspoils <;> nofun
  | carriedByNone h hsound hnone => nofun
  | carriedBySome h hsound hvalues hsome =>
    rintro ⟨⟩
    exact hsome rfl

/-- What an event holds under a key that belongs to its addresses is what the key resolves to by one
of the rules. It is never a field of no values, and depends only on what the event holds under the
key of its addresses. -/
theorem get_eq_iff_resolves (hkey : key ∈ event.layout.addressFields) :
    (∀ outcome, event.get key = outcome ↔ event.Resolves key outcome) ∧
    event.get key ≠ .ok (some (.multi [])) ∧
    ∀ other : Event, other.layout = event.layout →
      Json.lookup? other.members event.layout.addressKey =
        Json.lookup? event.members event.layout.addressKey →
      other.get key = event.get key := by
  have hget : event.get key = event.getAddressField key := by rw [get, if_pos hkey]
  obtain ⟨outcome, hresolves⟩ := event.exists_resolves key
  have houtcome := hget.trans (getAddressField_of_resolves hresolves)
  refine ⟨fun result ↦ ⟨?_, fun h ↦ hget.trans (getAddressField_of_resolves h)⟩, ?_, ?_⟩
  · rintro rfl
    exact houtcome ▸ hresolves
  · rw [houtcome]
    exact hresolves.ne_multi_nil
  · intro other hlayout hlookup
    rw [hget, get, if_pos (hlayout ▸ hkey), getAddressField, getAddressField, hlayout, hlookup]

/-- A field of two of three addresses, in an event that also has a field of that name itself. Where
one address holds null and the next one is no object, the null decides. The key of the addresses may
belong to the addresses. -/
theorem get_eq_iff_resolves_addresses : ∃ carried spoiled : List Json,
    carried = [.object [("ip", .string "a")], .object [("cc", .null)],
      .object [("ip", .number (.integer 5))]] ∧
    spoiled = [.object [("ip", .string "a")], .object [("ip", .null)], .bool true] ∧
    (⟨[("address", .array carried), ("ip", .array [])], .standard⟩ : Event).get "ip" =
      .ok (some (.multi [.string "a", .number (.ofInt 5)])) ∧
    (⟨[("ip", .array spoiled)], ⟨"ip", ["cc", "ip"]⟩⟩ : Event).get "ip" = .ok (some .null) := by
  have hvalue {ak : String} {content : Json} {value : Value} (h : content.toValue? = some value) :
      ¬Spoiled ak "ip" (.object [("ip", content)]) :=
    not_spoiled_iff.mpr ⟨_, rfl, .inr ⟨content, value, rfl, h⟩⟩
  refine ⟨_, _, rfl, rfl, ?_, ?_⟩
  · apply ((get_eq_iff_resolves (by decide)).1 _).mpr
    refine .carriedBySome rfl ?_ rfl nofun
    simp only [List.forall_mem_cons]
    exact ⟨hvalue rfl, not_spoiled_iff.mpr ⟨_, rfl, .inl rfl⟩, hvalue rfl, List.forall_mem_nil _⟩
  · apply ((get_eq_iff_resolves (by decide)).1 _).mpr
    refine @Resolves.spoiled _ "ip" [.object [("ip", .string "a")]] _ _ _ rfl ?_ (.null rfl)
    exact List.forall_mem_singleton.mpr (hvalue rfl)

end Criteria.Event
