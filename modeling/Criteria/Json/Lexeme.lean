import Criteria.Decimal
import Criteria.Json

/-!
# Strings and numbers of a Json text

Reading goes from left to right and stops at the first problem. A string or number whose value is
not needed may be skipped, which asks a little less of it: escaped code units need not pair up,
and a number may be of any size. This is the documented behaviour of a Json library.
-/

namespace Criteria.Json

/-- Why a text cannot be read. -/
inductive Problem where
  /-- The text ends too early. -/
  | truncated
  /-- The text is not Json, or something follows the value. -/
  | malformed
  /-- A value is of another type than asked for, or occurs twice. -/
  | mistyped
deriving DecidableEq, Inhabited

/-- The text from the first character on that is not blank. -/
def skipBlank (text : List Char) : List Char :=
  text.dropWhile fun c ↦ c = ' ' || c = '\n' || c = '\t' || c = '\r'

/-- The value of a hexadecimal digit. -/
def hexDigit? (c : Char) : Option Nat :=
  if '0' ≤ c ∧ c ≤ '9' then some (c.toNat - '0'.toNat)
  else if 'a' ≤ c ∧ c ≤ 'f' then some (c.toNat - 'a'.toNat + 10)
  else if 'A' ≤ c ∧ c ≤ 'F' then some (c.toNat - 'A'.toNat + 10)
  else none

/-- The 16-bit unit written by four hexadecimal digits. The text ends too early if fewer than
four bytes are left. -/
def readUnit (text : List Char) : Except Problem Nat :=
  let four := text.take 4
  if (String.ofList four).utf8ByteSize < 4 then .error .truncated
  else
    match four.mapM hexDigit? with
    | some [a, b, c, d] => .ok (((a * 16 + b) * 16 + c) * 16 + d)
    | _ => .error .malformed

/-- What an escaped character stands for, unless it is a unit. -/
def unescape? (c : Char) : Option Char :=
  match c with
  | '"' => some '"'
  | '\\' => some '\\'
  | '/' => some '/'
  | 'b' => some '\x08'
  | 'f' => some '\x0c'
  | 'n' => some '\n'
  | 'r' => some '\r'
  | 't' => some '\t'
  | _ => none

/-- Whether a unit is the first of a pair. -/
def isLeading (unit : Nat) : Bool := 0xD800 ≤ unit && unit ≤ 0xDBFF

/-- Whether a unit is the second of a pair. -/
def isTrailing (unit : Nat) : Bool := 0xDC00 ≤ unit && unit ≤ 0xDFFF

/-- The character that a pair of units stands for. -/
def pairChar (leading trailing : Nat) : Char :=
  Char.ofNat (0x10000 + (leading - 0xD800) * 0x400 + (trailing - 0xDC00))

/-- Reads a string after its opening quote, given the characters read so far, the last one first,
and the first unit of a pair if the second has to follow. Every character spends fuel, and more
than the length of the text is enough. -/
def readString (leading? : Option Nat) (done : List Char) :
    Nat → List Char → Except Problem (String × List Char)
  | 0, _ => .error .truncated
  | _, [] => .error .truncated
  | fuel + 1, c :: rest =>
    match leading? with
    | some leading =>
      if c ≠ '\\' then .error .malformed
      else
        match rest with
        | [] => .error .truncated
        | 'u' :: rest => do
          let unit ← readUnit rest
          if isTrailing unit then
            readString none (pairChar leading unit :: done) fuel (rest.drop 4)
          else .error .malformed
        | _ => .error .malformed
    | none =>
      if c = '"' then .ok (String.ofList done.reverse, rest)
      else if c = '\\' then
        match rest with
        | [] => .error .truncated
        | 'u' :: rest => do
          let unit ← readUnit rest
          if isTrailing unit then .error .malformed
          else if isLeading unit then readString (some unit) done fuel (rest.drop 4)
          else readString none (Char.ofNat unit :: done) fuel (rest.drop 4)
        | c :: rest =>
          match unescape? c with
          | some c => readString none (c :: done) fuel rest
          | none => .error .malformed
      else if c.toNat < 32 then .error .malformed
      else readString none (c :: done) fuel rest

/-- Skips a string after its opening quote. Fuel is spent as in reading one. -/
def skipString : Nat → List Char → Except Problem (String × List Char)
  | 0, _ => .error .truncated
  | _, [] => .error .truncated
  | fuel + 1, c :: rest =>
    if c = '"' then .ok ("", rest)
    else if c = '\\' then
      match rest with
      | [] => .error .truncated
      | 'u' :: rest => do
        let _ ← readUnit rest
        skipString fuel (rest.drop 4)
      | c :: rest => if (unescape? c).isSome then skipString fuel rest else .error .malformed
    else if c.toNat < 32 then .error .malformed
    else skipString fuel rest

/-- The digits at the start of a text, and the rest. -/
def digits (text : List Char) : List Char × List Char :=
  (text.takeWhile Char.isDigit, text.dropWhile Char.isDigit)

/-- Appends decimal digits to a number while it fits into 64 bits. Returns the number and the
digits from the first one that did not fit. -/
def appendDigits (n : Nat) : List Char → Nat × List Char
  | [] => (n, [])
  | d :: ds =>
    let m := 10 * n + (d.toNat - '0'.toNat)
    if m < Nat.pow 2 64 then appendDigits m ds else (n, d :: ds)

/-- The whole part of a number. A zero stands alone. -/
def readWhole : List Char → Except Problem (List Char × List Char)
  | [] => .error .truncated
  | '0' :: c :: rest => if c.isDigit then .error .malformed else .ok (['0'], c :: rest)
  | c :: rest => if c.isDigit then .ok (digits (c :: rest)) else .error .malformed

/-- The places of a number after its point; there is at least one. -/
def readPlaces (text : List Char) : Except Problem (List Char × List Char) :=
  match digits text with
  | ([], []) => .error .truncated
  | ([], _) => .error .malformed
  | read => .ok read

/-- The exponent of a number after its mark. -/
def readExponent (text : List Char) : Except Problem (Int × List Char) :=
  let (negative, unsigned) :=
    match text with
    | '+' :: rest => (false, rest)
    | '-' :: rest => (true, rest)
    | rest => (false, rest)
  match digits unsigned with
  | ([], []) => .error .truncated
  | ([], _) => .error .malformed
  | (ds, rest) =>
    let magnitude : Nat := Decimal.ofDigits 0 ds
    .ok (if negative then -magnitude else magnitude, rest)

/-- Whether a number goes on with an exponent. -/
def hasExponent : List Char → Bool
  | c :: _ => c = 'e' || c = 'E'
  | [] => false

/-- The binary number of a significand and a power of ten. Numbers too great are refused. -/
def binary (negative : Bool) (significand : Nat) (power : Int) : Except Problem Number :=
  match Binary64.ofScientific? negative significand power with
  | some x => .ok (.binary x)
  | none => .error .malformed

/-- The integer, if it fits into 64 bits and is not a negative zero, and otherwise the binary
number nearest to it. -/
def integer (negative : Bool) (n : Nat) : Except Problem Number :=
  if !negative then .ok (.integer n)
  else if 0 < n ∧ n ≤ Nat.pow 2 63 then .ok (.integer (-n))
  else binary true n 0

/-- Reads a number after its sign. The significand takes in digits while it fits into 64 bits.
Each digit of the whole part beyond that counts as a power of ten, and the places beyond it are
passed over. -/
def readNumber (negative : Bool) (text : List Char) : Except Problem (Number × List Char) := do
  let (whole, rest) ← readWhole text
  let (n, beyond) := appendDigits 0 whole
  match rest with
  | '.' :: rest =>
    let (places, rest) ← readPlaces rest
    let (significand, ignored) := appendDigits n places
    let power : Int := beyond.length - (places.length - ignored.length : Nat)
    if hasExponent rest then
      let (exponent, rest) ← readExponent (rest.drop 1)
      return (← binary negative significand (power + exponent), rest)
    else return (← binary negative significand power, rest)
  | rest =>
    if hasExponent rest then
      let (exponent, rest) ← readExponent (rest.drop 1)
      return (← binary negative n (beyond.length + exponent), rest)
    else if beyond.isEmpty then return (← integer negative n, rest)
    else return (← binary negative n beyond.length, rest)

/-- A skipped number in which the text ends counts as malformed. -/
def Problem.whenSkipped {α : Type} : Except Problem α → Except Problem α
  | .error _ => .error .malformed
  | read => read

/-- Skips a number after its sign. -/
def skipNumber (text : List Char) : Except Problem (Number × List Char) := Problem.whenSkipped do
  let (_, rest) ← readWhole text
  let rest ←
    match rest with
    | '.' :: rest => Prod.snd <$> readPlaces rest
    | rest => pure rest
  let rest ← if hasExponent rest then Prod.snd <$> readExponent (rest.drop 1) else pure rest
  return (.integer 0, rest)

end Criteria.Json
