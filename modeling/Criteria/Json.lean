import Criteria.Binary64.Shortest

/-!
# Json values

The values that events are made of, and their compact text. Both follow the documented behaviour of
a Json library: which numbers stay integers, that members are listed by their keys, and what is
escaped in a string.
-/

namespace Criteria

/-- A number is kept exactly if it is an integer of at most 64 bits, with or without a sign, and
is a binary floating point number otherwise. -/
inductive Json.Number where
  /-- An integer of at most 64 bits. -/
  | integer (n : Int)
  /-- Any other number. -/
  | binary (x : Binary64)
deriving DecidableEq, Inhabited

/-- A Json value. Objects list their members by ascending keys, each key once. -/
inductive Json where
  /-- The value `null`. -/
  | null
  /-- A truth value. -/
  | bool (truth : Bool)
  /-- A number. -/
  | number (number : Json.Number)
  /-- A text. -/
  | string (text : String)
  /-- A sequence of values. -/
  | array (items : List Json)
  /-- Values under keys. -/
  | object (members : List (String × Json))
deriving Inhabited

namespace Json

/-- Binary numbers are written without an exponent from five zeros after the point up to sixteen
digits before it. -/
def plain : Binary64.Plain := ⟨-5, 16⟩

/-- The text of a number. -/
def Number.toText : Number → String
  | integer n => n.repr
  | binary x => x.toText plain

/-- Escapes one character of a string: the quote, the backslash, and the control characters. -/
def escapeChar (c : Char) : List Char :=
  if c = '"' then ['\\', '"']
  else if c = '\\' then ['\\', '\\']
  else if c.toNat = 8 then ['\\', 'b']
  else if c.toNat = 12 then ['\\', 'f']
  else if c = '\n' then ['\\', 'n']
  else if c = '\r' then ['\\', 'r']
  else if c = '\t' then ['\\', 't']
  else if c.toNat < 16 then ['\\', 'u', '0', '0', '0', Nat.digitChar c.toNat]
  else if c.toNat < 32 then ['\\', 'u', '0', '0', '1', Nat.digitChar (c.toNat - 16)]
  else [c]

/-- A string between quotes. -/
def quote (text : String) : String :=
  String.ofList ('"' :: text.toList.flatMap escapeChar ++ ['"'])

mutual

/-- The text of a value without any blanks. -/
def compress : Json → String
  | null => "null"
  | bool truth => if truth then "true" else "false"
  | number n => n.toText
  | string text => quote text
  | array items => "[" ++ ",".intercalate (compressItems items) ++ "]"
  | object members => "\x7b" ++ ",".intercalate (compressMembers members) ++ "\x7d"

/-- The texts of the items of an array. -/
def compressItems : List Json → List String
  | [] => []
  | item :: rest => compress item :: compressItems rest

/-- The texts of the members of an object. -/
def compressMembers : List (String × Json) → List String
  | [] => []
  | (key, value) :: rest => (quote key ++ ":" ++ compress value) :: compressMembers rest

end

/-- Puts a member at the place of its key; a member that had the key is replaced. -/
def insertMember (key : String) (value : Json) : List (String × Json) → List (String × Json)
  | [] => [(key, value)]
  | (k, v) :: rest =>
    match compare key k with
    | .lt => (key, value) :: (k, v) :: rest
    | .eq => (key, value) :: rest
    | .gt => (k, v) :: insertMember key value rest

/-- The members of an object whose members were written in the given order. -/
def ofMembers (members : List (String × Json)) : List (String × Json) :=
  members.foldl (fun sorted member ↦ insertMember member.1 member.2 sorted) []

/-- What an object holds under a key. -/
def lookup? (members : List (String × Json)) (key : String) : Option Json :=
  members.lookup key

/-- The member just put into an object is found, whatever was there before. -/
theorem lookup?_insertMember_self (key : String) (value : Json) (members : List (String × Json)) :
    lookup? (insertMember key value members) key = some value := by
  induction members with
  | nil => simp [insertMember, lookup?]
  | cons member rest ih =>
    obtain ⟨k, v⟩ := member
    rw [insertMember]
    split
    · simp [lookup?]
    · simp [lookup?]
    · next h =>
      have hne : (key == k) = false := by
        rw [beq_eq_false_iff_ne]
        rintro rfl
        rw [Std.ReflOrd.compare_self] at h
        exact nomatch h
      rw [lookup?, List.lookup_cons, hne]
      exact ih

/-- Putting a member into an object leaves the other members as they were. -/
theorem lookup?_insertMember_of_ne {key other : String} (hne : other ≠ key) (value : Json)
    (members : List (String × Json)) :
    lookup? (insertMember key value members) other = lookup? members other := by
  have hne' : (other == key) = false := by rwa [beq_eq_false_iff_ne]
  induction members with
  | nil => simp [insertMember, lookup?, List.lookup_cons, hne']
  | cons member rest ih =>
    obtain ⟨k, v⟩ := member
    rw [insertMember]
    split
    · simp [lookup?, List.lookup_cons, hne']
    · next h =>
      have hk : key = k := Std.LawfulEqOrd.eq_of_compare h
      subst hk
      simp [lookup?, List.lookup_cons, hne']
    · simp only [lookup?, List.lookup_cons] at ih ⊢
      split <;> simp_all

end Json

end Criteria
