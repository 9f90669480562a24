import TrustMesh.Decimal.Shortest
import TrustMesh.Json.Printer
import TrustMesh.Json.Term
import TrustMesh.Text.Quoted

/-!
# Why a text is not what was expected

A decoder reports the first fault in reading order: either the text is not JSON, or
it is JSON of the wrong shape. `Mismatch.message` is the wording of the latter.
-/

namespace TrustMesh

/-- What stands at a place of a text. -/
inductive Found where
  | null
  | bool (value : Bool)
  | number (value : Number)
  | text (value : String)
  | sequence
  | map
  | bareVariant
deriving DecidableEq

/-- What is expected at a place of a text. -/
inductive Wanted where
  | text
  | sequence
  | map
  | boolean
  | count
  | uuid
  | record (name : String)
  | variantName
  | variantNameOrMap
  | variantContent
deriving DecidableEq

/-- The ways in which JSON can have the wrong shape. -/
inductive Mismatch where
  | missingField (name : String)
  | duplicateField (name : String)
  | invalidType (found : Found) (wanted : Wanted)
  | negativeCount (value : Int)
  | notSingleKey
  | variantOutOfRange (index : Int) (variants : Nat)
  | unknownVariant (name : String) (known : List String)
  | tooShort (length : Nat) (record : String) (fields : Nat)
  | tooLongValue (length : Nat)
  | tooLongBuffer (length : Nat) (fields : Nat)
  | invalidUuid
deriving DecidableEq

/-- Why a text cannot be decoded. -/
inductive Fault where
  | notJson
  | mismatch (cause : Mismatch)
deriving DecidableEq

/-- The wording of what was found. -/
def Found.describe : Found → String
  | .null => "null"
  | .bool value => s!"boolean `{value}`"
  | .number (.integer value) => s!"integer `{String.ofList (Json.integerChars value)}`"
  | .number (.binary value) => s!"floating point `{String.ofList value.text}`"
  | .text value => s!"string {Text.quote value}"
  | .sequence => "sequence"
  | .map => "map"
  | .bareVariant => "unit variant"

/-- The wording of what was expected. -/
def Wanted.describe : Wanted → String
  | .text => "a string"
  | .sequence => "a sequence"
  | .map => "a map"
  | .boolean => "a boolean"
  | .count => "usize"
  | .uuid => "a formatted UUID string"
  | .record name => s!"struct {name}"
  | .variantName => "variant identifier"
  | .variantNameOrMap => "string or map"
  | .variantContent => "newtype variant"

/-- A name in back quotes. -/
def backQuoted (name : String) : String := s!"`{name}`"

/-- The wording of a choice among names. -/
def choice : List String → String
  | [] => "nothing"
  | [one] => backQuoted one
  | [one, other] => s!"{backQuoted one} or {backQuoted other}"
  | names => "one of " ++ ", ".intercalate (names.map backQuoted)

/-- The wording of a mismatch. -/
def Mismatch.message : Mismatch → String
  | .missingField name => s!"missing field {backQuoted name}"
  | .duplicateField name => s!"duplicate field {backQuoted name}"
  | .invalidType found wanted => s!"invalid type: {found.describe}, expected {wanted.describe}"
  | .negativeCount value =>
    s!"invalid value: {(Found.number (.integer value)).describe}, expected {Wanted.count.describe}"
  | .notSingleKey => "invalid value: map, expected map with a single key"
  | .variantOutOfRange index variants =>
    s!"invalid value: {(Found.number (.integer index)).describe}, " ++
      s!"expected variant index 0 <= i < {variants}"
  | .unknownVariant name known => s!"unknown variant {backQuoted name}, expected {choice known}"
  | .tooShort length record fields =>
    s!"invalid length {length}, expected struct {record} with {fields} elements"
  | .tooLongValue length => s!"invalid length {length}, expected fewer elements in array"
  | .tooLongBuffer length fields =>
    s!"invalid length {length}, expected {fields} elements in sequence"
  | .invalidUuid => "UUID parsing failed"

/-- The wording of a fault. -/
def Fault.reason : Fault → String
  | .notJson => "not JSON"
  | .mismatch cause => cause.message

/-- What a term is found to be; none if it cannot be read. -/
def Term.found? : Term → Option Found
  | .null => some .null
  | .bool value => some (.bool value)
  | .number value => some (.number value)
  | .text value => some (.text value)
  | .array _ => some .sequence
  | .object _ => some .map
  | .unreadable => none
  | .broken => none

/-- The fault of a term that is not what was wanted. -/
def Term.refuse (term : Term) (wanted : Wanted) : Fault :=
  match term.found? with
  | some found => .mismatch (.invalidType found wanted)
  | none => .notJson

end TrustMesh
