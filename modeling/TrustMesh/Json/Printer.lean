import TrustMesh.Decimal.Shortest
import TrustMesh.Json.Basic
import TrustMesh.Text.Hex

/-!
# JSON texts

`Json.compact` writes a value without spaces, `Json.pretty` with two spaces of
indentation and one line for each item. In strings only the quote, the backslash
and the characters below U+0020 are escaped; all others stand for themselves.
-/

namespace TrustMesh

namespace Json

/-- How one character is written inside a string. -/
def escape (c : Char) : List Char :=
  if c = '"' then ['\\', '"']
  else if c = '\\' then ['\\', '\\']
  else if c = '\n' then ['\\', 'n']
  else if c = '\r' then ['\\', 'r']
  else if c = '\t' then ['\\', 't']
  else if c = '\x08' then ['\\', 'b']
  else if c = '\x0c' then ['\\', 'f']
  else if c.toNat < 0x20 then ['\\', 'u', '0', '0'] ++ Text.hexPair c.toNat.toUInt8
  else [c]

/-- A string in quotes. -/
def quoted (s : String) : List Char := '"' :: s.toList.flatMap escape ++ ['"']

/-- The digits of an integer after its sign. -/
def integerChars (n : Int) : List Char :=
  if n < 0 then '-' :: Binary64.digitsOf n.natAbs else Binary64.digitsOf n.natAbs

/-- A number; binary values always have a fraction or an exponent. -/
def numberChars : Number → List Char
  | .integer n => integerChars n
  | .binary x => x.text

mutual

/-- The compact text of a value. -/
def chars : Json → List Char
  | .null => ['n', 'u', 'l', 'l']
  | .bool true => ['t', 'r', 'u', 'e']
  | .bool false => ['f', 'a', 'l', 's', 'e']
  | .number n => numberChars n
  | .text s => quoted s
  | .array [] => ['[', ']']
  | .array (item :: rest) => '[' :: item.chars ++ itemsChars rest
  | .object [] => ['{', '}']
  | .object ((key, value) :: rest) => '{' :: quoted key ++ ':' :: value.chars ++ membersChars rest

/-- The items of an array after the first, and its end. -/
def itemsChars : List Json → List Char
  | [] => [']']
  | item :: rest => ',' :: item.chars ++ itemsChars rest

/-- The members of an object after the first, and its end. -/
def membersChars : List (String × Json) → List Char
  | [] => ['}']
  | (key, value) :: rest => ',' :: quoted key ++ ':' :: value.chars ++ membersChars rest

end

/-- The compact text of a value: no spaces, members in their order. -/
def compact (value : Json) : String := String.ofList value.chars

/-- A new line with `depth` levels of indentation. -/
def newLine (depth : Nat) : List Char := '\n' :: List.replicate (2 * depth) ' '

mutual

/-- The indented text of a value that stands at `depth`. -/
def prettyChars (depth : Nat) : Json → List Char
  | .array [] => ['[', ']']
  | .array (item :: rest) =>
    '[' :: newLine (depth + 1) ++ prettyChars (depth + 1) item ++ prettyItems depth rest
  | .object [] => ['{', '}']
  | .object ((key, value) :: rest) =>
    '{' :: newLine (depth + 1) ++ quoted key ++ ':' :: ' ' :: prettyChars (depth + 1) value ++
      prettyMembers depth rest
  | value => value.chars

/-- The items of an array at `depth` after the first, and its end. -/
def prettyItems (depth : Nat) : List Json → List Char
  | [] => newLine depth ++ [']']
  | item :: rest =>
    ',' :: newLine (depth + 1) ++ prettyChars (depth + 1) item ++ prettyItems depth rest

/-- The members of an object at `depth` after the first, and its end. -/
def prettyMembers (depth : Nat) : List (String × Json) → List Char
  | [] => newLine depth ++ ['}']
  | (key, value) :: rest =>
    ',' :: newLine (depth + 1) ++ quoted key ++ ':' :: ' ' :: prettyChars (depth + 1) value ++
      prettyMembers depth rest

end

/-- The indented text of a value. -/
def pretty (value : Json) : String := String.ofList (prettyChars 0 value)

end Json

end TrustMesh
