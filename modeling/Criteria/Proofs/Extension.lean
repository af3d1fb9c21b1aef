import Criteria.Proofs.Reading
import Criteria.Proofs.Resolution
import Criteria.Proofs.Scanning

/-!
# Events with further addresses

Addresses that are added to an event come after those it has, so that the values of its fields stay
in place and others come after them. A scan then stops where it stopped before, or goes on and may
fail. Main statement: a condition in which nothing is negated and no field has to be missing does
not become false of an event of which it is true.
-/

namespace Criteria

/-! ## Records with more values -/

/-- Where both records show the values of a field, those of the first one come first in the
second. -/
def Record.GrowsTo (record larger : Record) : Prop :=
  ∀ key values others, record.held key = .ok values → larger.held key = .ok others →
    values <+: others

/-- A test that a missing field does not pass and that is true stays true or fails when there are
more values. -/
theorem Record.GrowsTo.evaluate_ne_false {record larger : Record} (h : record.GrowsTo larger)
    {t : Test} (hmissing : t.whenMissing = false) {key : RecordKey}
    (htrue : t.evaluate key record = .ok true) : t.evaluate key larger ≠ .ok false := by
  rw [Test.evaluate_eq_held hmissing] at htrue
  obtain ⟨values, hvalues, hscan⟩ := bind_eq_ok_iff.mp htrue
  rw [Test.evaluate_eq_held hmissing]
  intro hfalse
  obtain ⟨others, hothers, hlarger⟩ := bind_eq_ok_iff.mp hfalse
  obtain ⟨more, rfl⟩ := h key values others hvalues hothers
  rw [Test.anyPasses_append_of_true hscan] at hlarger
  cases hlarger

private theorem Junction.combine?_ne_false {j : Junction} {values others : List (Option Bool)}
    (h : List.Forall₂ (fun value other ↦ value = some true → other ≠ some false) values others)
    (htrue : j.combine? values = some true) : j.combine? others ≠ some false := by
  induction h with
  | nil =>
    rw [htrue]
    nofun
  | @cons value other values others hfirst _ ih =>
    rcases other with _ | _ | _
    · nofun
    · rcases value with _ | _ | _
      · cases htrue
      · cases j with
        | and => cases htrue
        | or => exact ih htrue
      · exact absurd rfl (hfirst rfl)
    · cases j with
      | or => nofun
      | and =>
        rcases value with _ | _ | _
        · cases htrue
        · cases htrue
        · exact ih htrue

namespace Cond

variable {κ : Type} [CustomCondition κ]

/-- A node that is no custom condition, negates nothing, and does not ask whether a field is
missing. -/
def Affirms (node : Cond κ) : Prop :=
  (∀ leaf, node ≠ custom leaf) ∧ (∀ operand, node ≠ negation operand) ∧
    ∀ key, node ≠ test key .isNull

/-- A test affirms something unless it asks whether a field is missing. -/
@[simp] theorem affirms_test {key : RecordKey} {t : Test} :
    (test key t : Cond κ).Affirms ↔ t ≠ .isNull := by
  simp [Affirms]

/-- Every compound affirms something. -/
@[simp] theorem affirms_compound {j : Junction} {operands : List (Cond κ)} :
    (compound j operands).Affirms := by
  simp [Affirms]

/-- A condition without negations that is true does not become false when there are more values. -/
theorem read?_ne_false {record larger : Record} (h : record.GrowsTo larger) {c : Cond κ}
    (hc : c.Everywhere Affirms) (htrue : c.read? record = some true) :
    c.read? larger ≠ some false := by
  induction c with
  | fixed truth =>
    rw [read?_fixed] at htrue ⊢
    rw [htrue]
    nofun
  | test key t =>
    have hmissing : t.whenMissing = false := by
      cases t with
      | isNull => exact absurd rfl (affirms_test.mp hc.self)
      | _ => rfl
    rw [read?_test, toOption_eq_some_iff] at htrue
    rw [read?_test, ne_eq, toOption_eq_some_iff]
    exact h.evaluate_ne_false hmissing htrue
  | custom leaf => exact absurd rfl (hc.self.1 leaf)
  | negation operand => exact absurd rfl (hc.self.2.1 operand)
  | compound j operands ih =>
    rw [read?_compound] at htrue ⊢
    apply Junction.combine?_ne_false _ htrue
    rw [List.forall₂_map_left_iff, List.forall₂_map_right_iff, List.forall₂_same]
    exact fun operand hmem ↦ ih operand hmem ((everywhere_compound.mp hc).2 operand hmem)

end Cond

/-! ## Events with more addresses -/

namespace Event

/-- The addresses of an event, if it lists any. -/
def addresses (event : Event) : List Json :=
  match Json.lookup? event.members event.layout.addressKey with
  | some (.array addresses) => addresses
  | _ => []

/-- The event with further addresses after those it has. -/
def addAddresses (event : Event) (more : List Json) : Event where
  members := Json.insertMember event.layout.addressKey (.array (event.addresses ++ more))
    event.members
  layout := event.layout

variable {event : Event} {more : List Json} {key : RecordKey} {values : List Value}

/-- The record of an event holds what the event does. -/
@[simp] theorem get_toRecord (event : Event) (name : String) :
    event.toRecord.get name = event.get name := rfl

/-- Adding addresses keeps the layout. -/
@[simp] theorem layout_addAddresses (event : Event) (more : List Json) :
    (event.addAddresses more).layout = event.layout := rfl

private theorem lookup?_addAddresses_self (event : Event) (more : List Json) :
    Json.lookup? (event.addAddresses more).members event.layout.addressKey =
      some (.array (event.addresses ++ more)) :=
  Json.lookup?_insertMember_self ..

private theorem held_eq_ok_iff (event : Event) {addresses : List Json}
    (hkey : key.name ∈ event.layout.addressFields)
    (h : Json.lookup? event.members event.layout.addressKey = some (.array addresses)) :
    event.toRecord.held key = .ok values ↔
      addressValues event.layout.addressKey key.name addresses = .ok (some values) := by
  have hget : event.toRecord.get key.name =
      fieldOfFound <$> addressValues event.layout.addressKey key.name addresses := by
    rw [← getAddressField_of_array h]
    exact if_pos hkey
  rw [Record.held, hget]
  rcases addressValues event.layout.addressKey key.name addresses with e | _ | _ | _
  · exact ⟨fun h ↦ (by cases h), fun h ↦ (by cases h)⟩
  · exact ⟨fun h ↦ (by cases h), fun h ↦ (by cases h)⟩
  · exact ⟨fun h ↦ by cases h; rfl, fun h ↦ by cases h; rfl⟩
  · exact ⟨fun h ↦ by cases h; rfl, fun h ↦ by cases h; rfl⟩

private theorem lookup?_addAddresses_of_ne {name : String} (hne : name ≠ event.layout.addressKey) :
    Json.lookup? (event.addAddresses more).members name = Json.lookup? event.members name :=
  Json.lookup?_insertMember_of_ne hne _ _

private theorem held_addressKey_ne_ok (event : Event) {addresses : List Json}
    (hname : key.name = event.layout.addressKey) (hkey : key.name ∉ event.layout.addressFields)
    (h : Json.lookup? event.members event.layout.addressKey = some (.array addresses)) :
    event.toRecord.held key ≠ .ok values := by
  have hget : event.toRecord.get key.name =
      .error (.unsupportedValue key.name (.array addresses)) := by
    rw [get_toRecord, get, if_neg hkey, hname, h]
    rfl
  rw [Record.held, hget]
  intro h
  cases h

private theorem held_of_held_addAddresses (hkey : key.name ∉ event.layout.addressFields)
    (h : (event.addAddresses more).toRecord.held key = .ok values) :
    event.toRecord.held key = .ok values := by
  have hname : key.name ≠ event.layout.addressKey := fun hname ↦
    (event.addAddresses more).held_addressKey_ne_ok hname hkey
      (event.lookup?_addAddresses_self more) h
  have hget : (event.addAddresses more).toRecord.get key.name = event.toRecord.get key.name := by
    rw [get_toRecord, get_toRecord, get, get, layout_addAddresses, if_neg hkey, if_neg hkey,
      lookup?_addAddresses_of_ne hname]
  rwa [Record.held, hget, ← Record.held] at h

/-- In a field that belongs to the addresses, the values of the added ones come last. -/
theorem held_prefix_held_addAddresses (hkey : key.name ∈ event.layout.addressFields)
    (harray : ∀ content, Json.lookup? event.members event.layout.addressKey = some content →
      ∃ addresses, content = .array addresses) {others : List Value}
    (hvalues : event.toRecord.held key = .ok values)
    (hothers : (event.addAddresses more).toRecord.held key = .ok others) : values <+: others := by
  have hscan := ((event.addAddresses more).held_eq_ok_iff hkey
    (event.lookup?_addAddresses_self more)).mp hothers
  cases hlookup : Json.lookup? event.members event.layout.addressKey with
  | none =>
    have hget : event.toRecord.get key.name = .ok none :=
      (if_pos hkey).trans (getAddressField_of_resolves (.noAddresses hlookup))
    rw [Record.held, hget] at hvalues
    cases hvalues
    exact List.nil_prefix
  | some content =>
    obtain ⟨listed, rfl⟩ := harray content hlookup
    have haddresses : event.addresses = listed := by rw [addresses, hlookup]
    rw [event.held_eq_ok_iff hkey hlookup] at hvalues
    rw [haddresses, addAddresses, addressValues_append hvalues] at hscan
    obtain ⟨found?, -, hfound⟩ := map_eq_ok_iff.mp hscan
    obtain ⟨added, -, rfl⟩ := Option.map_eq_some_iff.mp hfound
    exact List.prefix_append values added

/-- Adding addresses to an event makes its fields grow. -/
theorem growsTo_addAddresses
    (harray : ∀ content, Json.lookup? event.members event.layout.addressKey = some content →
      ∃ addresses, content = .array addresses) (more : List Json) :
    event.toRecord.GrowsTo (event.addAddresses more).toRecord := by
  intro key values others hvalues hothers
  by_cases hkey : key.name ∈ event.layout.addressFields
  · exact held_prefix_held_addAddresses hkey harray hvalues hothers
  · rw [held_of_held_addAddresses hkey hothers] at hvalues
    cases hvalues
    exact List.prefix_refl values

end Event

namespace Cond

variable {κ : Type} [CustomCondition κ]

/-- If a condition in which nothing is negated and no field has to be missing is true of an event,
then it is true of the event with more addresses, or fails on it. -/
theorem evaluate_addAddresses {c : Cond κ} (hc : c.Everywhere Affirms) {event : Event}
    (harray : ∀ content, Json.lookup? event.members event.layout.addressKey = some content →
      ∃ addresses, content = .array addresses)
    (htrue : c.EvaluatesTo event.toRecord true) (more : List Json) :
    ∃ p, Predicate.compile c = .ok p ∧
      (p.evaluate (event.addAddresses more).toRecord = .ok true ∨
        ∃ e, p.evaluate (event.addAddresses more).toRecord = .error e) := by
  have hfree : c.CustomFree := fun node hnode ↦ (hc node hnode).1
  obtain ⟨p, hp⟩ := exists_compile hfree
  have hread := (evaluatesTo_iff hfree).mp htrue
  have hne := read?_ne_false (Event.growsTo_addAddresses harray more) hc hread
  rw [ne_eq, ← evaluate_eq_ok_iff hp] at hne
  refine ⟨p, hp, ?_⟩
  rcases hresult : p.evaluate (event.addAddresses more).toRecord with e | _ | _
  · exact .inr ⟨e, rfl⟩
  · exact absurd hresult hne
  · exact .inl rfl

/-- An event of one address gets two more, of which one holds null, and an event without addresses
gets one. -/
theorem evaluate_addAddresses_nested : ∃ (c : Cond Empty) (one none : Event) (address : Json),
    c = .compound .and [test ⟨"cc", rfl⟩ (.equal (.string "AT")), .compound .or
      [test ⟨"ip", rfl⟩ (.equal (.string "b")),
        test ⟨"n", rfl⟩ (.ordered .less (.number (.ofInt 9)))]] ∧
    one = ⟨[("address", .array [.object [("cc", .string "AT")]]), ("n", .number (.integer 5))],
      .standard⟩ ∧
    none = ⟨[("cc", .string "AT"), ("n", .number (.integer 5))], ⟨"address", ["ip"]⟩⟩ ∧
    address = .object [("ip", .string "a")] ∧
    (∃ p, Predicate.compile c = .ok p ∧
      (p.evaluate (one.addAddresses [address, .object [("ip", .null)]]).toRecord = .ok true ∨
        ∃ e, p.evaluate (one.addAddresses [address, .object [("ip", .null)]]).toRecord =
          .error e)) ∧
    ∃ p, Predicate.compile c = .ok p ∧
      (p.evaluate (none.addAddresses [address]).toRecord = .ok true ∨
        ∃ e, p.evaluate (none.addAddresses [address]).toRecord = .error e) := by
  refine ⟨_, _, _, _, rfl, rfl, rfl, rfl, evaluate_addAddresses ?affirms ?_ ⟨_, rfl, rfl⟩ _,
    evaluate_addAddresses ?affirms ?_ ⟨_, rfl, rfl⟩ _⟩
  · simp
  · rintro _ ⟨⟩
    exact ⟨_, rfl⟩
  · rintro _ ⟨⟩

end Cond

end Criteria
