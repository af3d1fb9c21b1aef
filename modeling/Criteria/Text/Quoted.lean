import Criteria.Text.Printable

/-!
# Quoted text

Texts are written in two forms. A diagnostic escapes everything that would not be seen, so that
the reader can tell any two texts apart. A query writes a text between single quotes and escapes
nothing but the single quote. The module also decides whether one text occurs in another.
-/

namespace Criteria.Text

/-- Escapes one character of a diagnostic. -/
def escapeChar (c : Char) : List Char :=
  if c = '"' then ['\\', '"']
  else if c = '\\' then ['\\', '\\']
  else if c = '\n' then ['\\', 'n']
  else if c = '\r' then ['\\', 'r']
  else if c = '\t' then ['\\', 't']
  else if c.toNat = 0 then ['\\', '0']
  else if isPrintable c then [c]
  else ['\\', 'u', '\x7b'] ++ Nat.toDigits 16 c.toNat ++ ['\x7d']

/-- A text as a diagnostic shows it, between double quotes. -/
def escaped (s : String) : String :=
  String.ofList ('"' :: s.toList.flatMap escapeChar ++ ['"'])

/-- Escapes one character of a query. -/
def quoteChar (c : Char) : List Char :=
  if c = '\'' then ['\\', '\''] else [c]

/-- A text as a query shows it, between single quotes. -/
def quoted (s : String) : String :=
  String.ofList ('\'' :: s.toList.flatMap quoteChar ++ ['\''])

/-- Whether the first list of characters is a contiguous part of the second. -/
def occursIn (part : List Char) : List Char → Bool
  | [] => part.isEmpty
  | c :: cs => part.isPrefixOf (c :: cs) || occursIn part cs

end Criteria.Text
