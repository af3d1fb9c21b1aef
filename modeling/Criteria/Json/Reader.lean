import Criteria.Json.Lexeme

/-!
# Reading Json values

One grammar serves for values that are kept and for values that are skipped. They differ in what
is asked of strings and numbers, and in how deep arrays and objects may be nested. The depths are
those of the Json library that is followed.
-/

namespace Criteria.Json

/-- What is asked of the strings and numbers of a value. -/
structure Lexicon where
  /-- Reads a string after its opening quote. -/
  string : List Char → Except Problem (String × List Char)
  /-- Reads a number after its sign. -/
  number : Bool → List Char → Except Problem (Number × List Char)

/-- Strings and numbers of values that are kept. -/
def Lexicon.kept : Lexicon where
  string text := readString none [] (text.length + 1) text
  number := readNumber

/-- Strings and numbers of values that are skipped. -/
def Lexicon.skipped : Lexicon where
  string text := skipString (text.length + 1) text
  number _ := skipNumber

/-- Reads the rest of a word. -/
def readWord (value : Json) : List Char → List Char → Except Problem (Json × List Char)
  | [], text => .ok (value, text)
  | _ :: _, [] => .error .truncated
  | c :: cs, d :: rest => if c = d then readWord value cs rest else .error .malformed

/-- Reads what has to stand between a key and its value. -/
def readColon (text : List Char) : Except Problem (List Char) :=
  match skipBlank text with
  | [] => .error .truncated
  | ':' :: rest => .ok rest
  | _ => .error .malformed

/-- Reads a value that is neither an array nor an object, given its first character. -/
def readLeaf (lexicon : Lexicon) (c : Char) (rest : List Char) :
    Except Problem (Json × List Char) :=
  match c with
  | 'n' => readWord .null ['u', 'l', 'l'] rest
  | 't' => readWord (.bool true) ['r', 'u', 'e'] rest
  | 'f' => readWord (.bool false) ['a', 'l', 's', 'e'] rest
  | '"' => (lexicon.string rest).map fun (text, rest) ↦ (.string text, rest)
  | '-' => (lexicon.number true rest).map fun (n, rest) ↦ (.number n, rest)
  | c =>
    if c.isDigit then (lexicon.number false (c :: rest)).map fun (n, rest) ↦ (.number n, rest)
    else .error .malformed

mutual

/-- Reads a value. Arrays and objects may be nested to less than the given depth. Every call
spends fuel, and twice the length of the text is enough. -/
def readValue (lexicon : Lexicon) (depth : Nat) :
    Nat → List Char → Except Problem (Json × List Char)
  | 0, _ => .error .truncated
  | fuel + 1, text =>
    match skipBlank text with
    | [] => .error .truncated
    | '[' :: rest =>
      if depth ≤ 1 then .error .malformed
      else (readItems lexicon (depth - 1) fuel false rest).map fun (items, rest) ↦
        (.array items, rest)
    | '\x7b' :: rest =>
      if depth ≤ 1 then .error .malformed
      else (readMembers lexicon (depth - 1) fuel false rest).map fun (members, rest) ↦
        (.object (ofMembers members), rest)
    | c :: rest => readLeaf lexicon c rest

/-- Reads the items of an array from its opening bracket on or from a comma on, after which one
more item has to follow. -/
def readItems (lexicon : Lexicon) (depth : Nat) :
    Nat → Bool → List Char → Except Problem (List Json × List Char)
  | 0, _, _ => .error .truncated
  | fuel + 1, afterComma, text =>
    match skipBlank text with
    | [] => .error .truncated
    | ']' :: rest => if afterComma then .error .malformed else .ok ([], rest)
    | start => do
      let (item, rest) ← readValue lexicon depth fuel start
      match skipBlank rest with
      | [] => .error .truncated
      | ']' :: rest => .ok ([item], rest)
      | ',' :: rest =>
        let (items, rest) ← readItems lexicon depth fuel true rest
        .ok (item :: items, rest)
      | _ => .error .malformed

/-- Reads the members of an object from its opening brace on or from a comma on, after which one
more member has to follow. -/
def readMembers (lexicon : Lexicon) (depth : Nat) :
    Nat → Bool → List Char → Except Problem (List (String × Json) × List Char)
  | 0, _, _ => .error .truncated
  | fuel + 1, afterComma, text =>
    match skipBlank text with
    | [] => .error .truncated
    | '\x7d' :: rest => if afterComma then .error .malformed else .ok ([], rest)
    | '"' :: rest => do
      let (key, rest) ← lexicon.string rest
      let rest ← readColon rest
      let (value, rest) ← readValue lexicon depth fuel rest
      match skipBlank rest with
      | [] => .error .truncated
      | '\x7d' :: rest => .ok ([(key, value)], rest)
      | ',' :: rest =>
        let (members, rest) ← readMembers lexicon depth fuel true rest
        .ok ((key, value) :: members, rest)
      | _ => .error .malformed
    | _ => .error .malformed

end

/-- Reads a value that is kept. Arrays and objects are nested less than 128 deep. -/
def read (text : List Char) : Except Problem (Json × List Char) :=
  readValue .kept 128 (2 * text.length + 2) text

/-- Skips a value of any depth, and returns the rest of the text. -/
def skip (text : List Char) : Except Problem (List Char) :=
  (readValue .skipped (text.length + 2) (2 * text.length + 2) text).map Prod.snd

/-- Nothing but blanks may follow a value that is the whole text. -/
def expectEnd {α : Type} (value : α) (rest : List Char) : Except Problem α :=
  if (skipBlank rest).isEmpty then .ok value else .error .malformed

/-- The value that a text consists of. -/
def ofText (text : String) : Except Problem Json := do
  let (value, rest) ← read text.toList
  expectEnd value rest

/-- The members of the object that a text consists of. -/
def membersOfText (text : String) : Except Problem (List (String × Json)) := do
  match ← ofText text with
  | object members => .ok members
  | _ => .error .mistyped

end Criteria.Json
