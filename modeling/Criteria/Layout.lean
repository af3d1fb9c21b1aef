import Criteria.Json.Reader

/-!
# Layout of events

An event lists addresses under one of its keys, and each address may carry some of a few fields. A
layout says which key and which fields. It is read from a Json text, in one of two forms: an
object with the members `address_key` and `address_fields`, or an array of the two values. What is
left out has its default.
-/

namespace Criteria

/-- Where the fields of addresses stand in an event. -/
structure Layout where
  /-- The key of the list of addresses. -/
  addressKey : String
  /-- The keys that are looked up in the addresses. -/
  addressFields : List String
deriving DecidableEq, Inhabited

namespace Layout

open Json

/-- The layout of events that come without one. -/
def standard : Layout := ⟨"address", ["asn", "cc", "ip"]⟩

/-- The problem with a text at whose start a value of another type is wanted. The value is read
as far as is needed to tell its type. -/
def mistyped (text : List Char) : Problem :=
  match text with
  | [] => .truncated
  | '[' :: _ => .mistyped
  | '\x7b' :: _ => .mistyped
  | c :: rest =>
    match readLeaf .kept c rest with
    | .ok _ => .mistyped
    | .error problem => problem

/-- Reads a string. -/
def readText (text : List Char) : Except Problem (String × List Char) :=
  match skipBlank text with
  | '"' :: rest => Lexicon.kept.string rest
  | other => .error (mistyped other)

/-- Reads strings from the opening bracket of an array on or from a comma on, after which one more
string has to follow. -/
def readTexts : Nat → Bool → List Char → Except Problem (List String × List Char)
  | 0, _, _ => .error .truncated
  | fuel + 1, afterComma, text =>
    match skipBlank text with
    | [] => .error .truncated
    | ']' :: rest => if afterComma then .error .malformed else .ok ([], rest)
    | start => do
      let (first, rest) ← readText start
      match skipBlank rest with
      | [] => .error .truncated
      | ']' :: rest => .ok ([first], rest)
      | ',' :: rest =>
        let (others, rest) ← readTexts fuel true rest
        .ok (first :: others, rest)
      | _ => .error .malformed

/-- Reads an array of strings. -/
def readTextArray (text : List Char) : Except Problem (List String × List Char) :=
  match skipBlank text with
  | '[' :: rest => readTexts (rest.length + 1) false rest
  | other => .error (mistyped other)

/-- Reads a layout from the opening bracket of an array on. -/
def readArray (text : List Char) : Except Problem (Layout × List Char) :=
  match skipBlank text with
  | [] => .error .truncated
  | ']' :: rest => .ok (standard, rest)
  | start => do
    let (addressKey, rest) ← readText start
    match skipBlank rest with
    | [] => .error .truncated
    | ']' :: rest => .ok ({ standard with addressKey }, rest)
    | ',' :: rest =>
      match skipBlank rest with
      | [] => .error .truncated
      | ']' :: _ => .error .malformed
      | start =>
        let (addressFields, rest) ← readTextArray start
        match skipBlank rest with
        | [] => .error .truncated
        | ']' :: rest => .ok (⟨addressKey, addressFields⟩, rest)
        | _ => .error .malformed
    | _ => .error .malformed

/-- The members of a layout that were read so far. -/
structure Members where
  /-- The value of `address_key`, if there was one. -/
  addressKey? : Option String
  /-- The value of `address_fields`, if there was one. -/
  addressFields? : Option (List String)

/-- Reads the value of a member after its key. A known key may occur once; the value of an unknown
key is skipped. -/
def Members.readMember (members : Members) (key : String) (text : List Char) :
    Except Problem (Members × List Char) := do
  if key = "address_key" then
    if members.addressKey?.isSome then .error .mistyped
    let (addressKey, rest) ← readText (← readColon text)
    return (⟨some addressKey, members.addressFields?⟩, rest)
  else if key = "address_fields" then
    if members.addressFields?.isSome then .error .mistyped
    let (addressFields, rest) ← readTextArray (← readColon text)
    return (⟨members.addressKey?, some addressFields⟩, rest)
  else return (members, ← Json.skip (← readColon text))

/-- Reads members from the opening brace of an object on or from a comma on, after which one more
member has to follow. -/
def Members.read (members : Members) :
    Nat → Bool → List Char → Except Problem (Members × List Char)
  | 0, _, _ => .error .truncated
  | fuel + 1, afterComma, text =>
    match skipBlank text with
    | [] => .error .truncated
    | '\x7d' :: rest => if afterComma then .error .malformed else .ok (members, rest)
    | '"' :: rest => do
      let (key, rest) ← Lexicon.kept.string rest
      let (members, rest) ← members.readMember key rest
      match skipBlank rest with
      | [] => .error .truncated
      | '\x7d' :: rest => .ok (members, rest)
      | ',' :: rest => members.read fuel true rest
      | _ => .error .malformed
    | _ => .error .malformed

/-- The layout with the members that were read, and defaults for the others. -/
def Members.toLayout (members : Members) : Layout :=
  ⟨members.addressKey?.getD standard.addressKey,
    members.addressFields?.getD standard.addressFields⟩

/-- The layout that a text consists of. -/
def ofText (text : String) : Except Problem Layout := do
  let (layout, rest) ←
    match skipBlank text.toList with
    | '[' :: rest => readArray rest
    | '\x7b' :: rest =>
      (Members.read ⟨none, none⟩ (rest.length + 1) false rest).map fun (members, rest) ↦
        (members.toLayout, rest)
    | other => .error (mistyped other)
  expectEnd layout rest

end Layout

end Criteria
