import TrustMesh.Json.Fault
import TrustMesh.Json.Reader

/-!
# Decoding terms

The basic decoders take a term and give a value or the first fault in reading order.

A `Record` is a list of named fields. Its usual form is an object with the fields in
any order; the members are read in the order in which they are written, a known
field that comes twice is a fault when the second is reached, and the fields that are
missing are reported, in the order of the record, when the object ends. A record
that does not collect its unknown members skips them and may also be written as an
array of its fields in order.

What is decoded comes from one of four sources, which differ only in what they say
about arrays that are too long and about choices of the wrong shape.
-/

namespace TrustMesh

/-- Where a term comes from: a text that is being read, a value read before, the part of a message
that is buffered before it is decoded, or a configuration file. -/
inductive Source where
  | text
  | value
  | buffer
  | configuration
deriving DecidableEq

/-- A decoder: the result, or the first fault in reading order. -/
abbrev Decoded (α : Type) := Except Fault α

namespace Decode

/-- Decode a string. -/
def text : Term → Decoded String
  | .text value => .ok value
  | term => .error (term.refuse .text)

/-- Decode a truth value. -/
def boolean : Term → Decoded Bool
  | .bool value => .ok value
  | term => .error (term.refuse .boolean)

/-- Decode a natural number of machine size. -/
def count : Term → Decoded Nat
  | .number (.integer value) =>
    if value < 0 then .error (.mismatch (.negativeCount value)) else .ok value.toNat
  | term => .error (term.refuse .count)

/-- Decode `null` as nothing and all else by `some`. -/
def optional {α : Type} (decode : Term → Decoded α) : Term → Decoded (Option α)
  | .null => .ok none
  | term => (decode term).map some

/-- Decode a list, item by item. -/
def list {α : Type} (decode : Term → Decoded α) : Term → Decoded (List α)
  | .array items => items.mapM decode
  | term => .error (term.refuse .sequence)

/-- Decode any value. -/
def any (term : Term) : Decoded Json :=
  if term.readable then .ok term.toJson else .error .notJson

end Decode

/-- A field of a record: its name, whether it may be missing, and how its value changes the record
read so far. -/
structure Field (α : Type) where
  name : String
  optional : Bool
  read : Source → Term → α → Decoded α

/-- A required field. -/
def Field.required {α β : Type} (name : String) (decode : Source → Term → Decoded β)
    (set : β → α → α) : Field α :=
  ⟨name, false, fun source term record => (decode source term).map (set · record)⟩

/-- A field that may be missing. -/
def Field.withDefault {α β : Type} (name : String) (decode : Source → Term → Decoded β)
    (set : β → α → α) : Field α :=
  ⟨name, true, fun source term record => (decode source term).map (set · record)⟩

/-- A record: the name that messages give it, its fields in order, the record before any field is
read, and what becomes of members it does not know. Without a collector they are skipped. -/
structure Record (α : Type) where
  name : String
  fields : List (Field α)
  start : α
  collect : Option (String → Term → α → α)

namespace Record

variable {α : Type}

/-- Read the members of an object in the order in which they are written; `seen` holds the names
of the known fields that were read. -/
def readMembers (r : Record α) (source : Source) :
    List String → α → List (Term × Term) → Decoded (List String × α)
  | seen, record, [] => .ok (seen, record)
  | seen, record, (.text key, value) :: rest =>
    match r.fields.find? (·.name = key) with
    | some field =>
      if key ∈ seen then .error (.mismatch (.duplicateField key))
      else
        match field.read source value record with
        | .ok record => r.readMembers source (key :: seen) record rest
        | .error fault => .error fault
    | none =>
      match r.collect with
      | some collect =>
        if value.readable then r.readMembers source seen (collect key value record) rest
        else .error .notJson
      | none =>
        if value.wellFormed then r.readMembers source seen record rest else .error .notJson
  | _, _, _ => .error .notJson

/-- The first field that is required and was not read. -/
def missing? (r : Record α) (seen : List String) : Option String :=
  (r.fields.find? fun field => !field.optional && field.name ∉ seen).map (·.name)

/-- The fault of an array that holds more than the fields of the record. A configuration file may
say more than is asked for. -/
def tooLong? (r : Record α) (source : Source) (length : Nat) : Option Fault :=
  match source with
  | .text => some .notJson
  | .value => some (.mismatch (.tooLongValue length))
  | .buffer => some (.mismatch (.tooLongBuffer length r.fields.length))
  | .configuration => none

/-- Read the items of an array as the fields of the record in order; `length` is the length of the
array and `index` the position of the next field. -/
def readItems (r : Record α) (source : Source) (length : Nat) :
    Nat → List (Field α) → α → List Term → Decoded α
  | _, [], record, [] => .ok record
  | _, [], record, _ :: _ =>
    match r.tooLong? source length with
    | some fault => .error fault
    | none => .ok record
  | index, field :: fields, record, [] =>
    if field.optional then r.readItems source length (index + 1) fields record []
    else .error (.mismatch (.tooShort index r.name r.fields.length))
  | index, field :: fields, record, item :: items =>
    match field.read source item record with
    | .ok record => r.readItems source length (index + 1) fields record items
    | .error fault => .error fault

/-- Decode a record from the members of an object. -/
def decodeMembers (r : Record α) (source : Source) (members : List (Term × Term)) : Decoded α :=
  match r.readMembers source [] r.start members with
  | .error fault => .error fault
  | .ok (seen, record) =>
    match r.missing? seen with
    | some name => .error (.mismatch (.missingField name))
    | none => .ok record

/-- Decode a record. -/
def decode (r : Record α) (source : Source) (term : Term) : Decoded α :=
  match term with
  | .object members => r.decodeMembers source members
  | .array items =>
    if r.collect.isSome then .error (term.refuse (.record r.name))
    else r.readItems source items.length 0 r.fields r.start items
  | _ => .error (term.refuse (.record r.name))

end Record

/-! ## Choices between two forms -/

/-- Decode one of several named variants with content, written as an object with one member. -/
def Decode.variant {α : Type} (names : List String)
    (content : String → Term → Decoded α) (source : Source) (term : Term) : Decoded α :=
  match source, term with
  | .text, .object ((key, value) :: rest) =>
    match key with
    | .text name =>
      if name ∈ names then
        match content name value with
        | .ok result => if rest.isEmpty then .ok result else .error .notJson
        | .error fault => .error fault
      else .error (.mismatch (.unknownVariant name names))
    | key => .error (key.refuse .variantName)
  | .text, .text name =>
    if name ∈ names then .error (.mismatch (.invalidType .bareVariant .variantContent))
    else .error (.mismatch (.unknownVariant name names))
  | .text, _ => .error .notJson
  | _, .object [(.text name, value)] =>
    if name ∈ names then content name value
    else .error (.mismatch (.unknownVariant name names))
  | _, .object _ => .error (.mismatch .notSingleKey)
  | _, .text name =>
    if name ∈ names then .error (.mismatch (.invalidType .bareVariant .variantContent))
    else .error (.mismatch (.unknownVariant name names))
  | _, term => .error (term.refuse .variantNameOrMap)

/-! ## Whole texts -/

/-- Decode a whole text: after the value only blanks may follow. -/
def Decode.wholeText {α : Type} (decode : Source → Term → Decoded α) (cs : List Char) :
    Decoded α :=
  match Term.read cs with
  | ⟨term, ends⟩ =>
    match decode .text term with
    | .ok result => if ends then .ok result else .error .notJson
    | .error fault => .error fault

/-- Decode a value that was read before. -/
def Decode.ofJson {α : Type} (decode : Source → Term → Decoded α) (value : Json) : Decoded α :=
  decode .value (.ofJson value)

end TrustMesh
