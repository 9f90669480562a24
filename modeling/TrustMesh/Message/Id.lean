import TrustMesh.Json.Record
import TrustMesh.Text.Hex

/-!
# Message identifiers

A message identifier is a UUID: thirty-two hexadecimal digits. It is written in groups
of 8, 4, 4, 4 and 12 digits and read in that form, without hyphens, in braces, or as a
URN.
-/

namespace TrustMesh

/-- A message identifier, given by its hexadecimal digits. -/
structure MessageId where
  digits : List (Fin 16)
  length_digits : digits.length = 32
deriving DecidableEq

namespace MessageId

/-- The identifier with these digits, if there are thirty-two. -/
def ofDigits? (digits : List (Fin 16)) : Option MessageId :=
  if length : digits.length = 32 then some ⟨digits, length⟩ else none

/-- The identifier with thirty-two zeros. -/
def zero : MessageId := ⟨List.replicate 32 (Text.lowDigit 0), by simp⟩

instance : Inhabited MessageId := ⟨zero⟩

/-- The identifier whose digits are those of `n` modulo `16 ^ 32`. -/
def ofNat (n : Nat) : MessageId :=
  ⟨(List.range 32).map fun i => Text.lowDigit (n / Nat.pow 16 (31 - i)), by simp⟩

/-- The sizes of the groups of digits. -/
def groups : List Nat := [8, 4, 4, 4, 12]

/-- Write digits in groups with a hyphen between two groups. -/
def writeGroups : List Nat → List (Fin 16) → List Char
  | [], _ => []
  | [size], digits => (digits.take size).map Text.hexChar
  | size :: sizes, digits =>
    (digits.take size).map Text.hexChar ++ '-' :: writeGroups sizes (digits.drop size)

/-- Read digits in groups with a hyphen between two groups. -/
def readGroups : List Nat → List Char → Option (List (Fin 16))
  | [], cs => if cs.isEmpty then some [] else none
  | [size], cs => if cs.length = size then cs.mapM Text.hexValue? else none
  | size :: sizes, cs => do
    let digits ← (cs.take size).mapM Text.hexValue?
    match cs.drop size with
    | '-' :: rest => return digits ++ (← readGroups sizes rest)
    | _ => none

/-- The characters of the hyphenated form. -/
def chars (id : MessageId) : List Char := writeGroups groups id.digits

/-- The hyphenated form, in lower case. -/
def text (id : MessageId) : String := String.ofList id.chars

/-- The hyphenated part of a text of 36 characters, or of one in braces or after the URN prefix. -/
def bare (cs : List Char) : List Char :=
  match cs with
  | '\x7b' :: rest =>
    if cs.length = 38 ∧ rest.getLast? = some '\x7d' then rest.dropLast else cs
  | _ =>
    if cs.length = 45 ∧ (cs.take 9).map Char.toLower = "urn:uuid:".toList then cs.drop 9 else cs

/-- Read an identifier in any of its forms. -/
def ofChars? (cs : List Char) : Option MessageId :=
  if cs.length = 32 then (readGroups [32] cs).bind ofDigits?
  else (readGroups groups (bare cs)).bind ofDigits?

/-- Decode an identifier. -/
def decode : Term → Decoded MessageId
  | .text value =>
    match ofChars? value.toList with
    | some id => .ok id
    | none => .error (.mismatch .invalidUuid)
  | term => .error (term.refuse .uuid)

end MessageId

end TrustMesh
