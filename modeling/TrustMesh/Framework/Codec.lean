import TrustMesh.Framework.Basic
import TrustMesh.Json.Record

/-!
# The written form of frameworks

A framework is written with its fields in a fixed order and the members it does not
interpret after them, in key order. Empty credential definitions and absent names are
left out. Members that a condition or a rule does not interpret are not written back,
except those of a condition that is not recognised.

A condition is told by its keys: `schema` comes first, then `id`, then `cred_def`.
The key that decides has to hold a string that is not empty.
-/

namespace TrustMesh

/-- The string of a member that holds one that is not empty. -/
def nonEmptyText? (key : String) (members : OrderedMap String Json) : Option String :=
  match members.get? key with
  | some (.text value) => if value = "" then none else some value
  | _ => none

/-- A member that is left out if it has no value. -/
def optionalMember (key : String) : Option String → List (String × Json)
  | some value => [(key, .text value)]
  | none => []

namespace Condition

/-- The condition that the members of an object state. -/
def ofMembers (members : OrderedMap String Json) : Condition :=
  if members.contains "schema" then
    match nonEmptyText? "schema" members with
    | some reference => .schema reference (nonEmptyText? "issuer" members)
    | none => .unrecognized members
  else if members.contains "id" then
    match nonEmptyText? "id" members with
    | some reference => .identity reference
    | none => .unrecognized members
  else if members.contains "cred_def" then
    match nonEmptyText? "cred_def" members with
    | some reference => .credDef reference
    | none => .unrecognized members
  else .unrecognized members

/-- The members of the object that states a condition. -/
def members : Condition → OrderedMap String Json
  | .schema reference issuer =>
    .ofList (("schema", .text reference) :: optionalMember "issuer" issuer)
  | .identity reference => .ofList [("id", .text reference)]
  | .credDef reference => .ofList [("cred_def", .text reference)]
  | .unrecognized members => members

/-- A condition as a JSON value. -/
def toJson (c : Condition) : Json := .object c.members.entries

/-- Decode a condition. -/
def decode : Term → Decoded Condition
  | .object members =>
    if (Term.object members).readable then .ok (.ofMembers (.ofList (Term.membersToJson members)))
    else .error .notJson
  | term => .error (term.refuse .map)

end Condition

namespace LedgerEntry

/-- An entry as a JSON value. -/
def toJson (e : LedgerEntry) : Json :=
  .object (("id", .text e.id) :: optionalMember "name" e.name ++ e.extra.entries)

/-- The record of an entry. -/
def record : Record LedgerEntry where
  name := "LedgerEntry"
  fields := [
    .required "id" (fun _ => Decode.text) fun id e => { e with id },
    .withDefault "name" (fun _ => Decode.optional Decode.text) fun name e => { e with name }]
  start := ⟨"", none, .empty⟩
  collect := some fun key value e => { e with extra := e.extra.insert key value.toJson }

end LedgerEntry

namespace Participant

/-- A participant as a JSON value. -/
def toJson (p : Participant) : Json :=
  .object (("id", .text p.id) :: optionalMember "name" p.name ++ optionalMember "did" p.did ++
    p.extra.entries)

/-- The record of a participant. -/
def record : Record Participant where
  name := "Participant"
  fields := [
    .required "id" (fun _ => Decode.text) fun id p => { p with id },
    .withDefault "name" (fun _ => Decode.optional Decode.text) fun name p => { p with name },
    .withDefault "did" (fun _ => Decode.optional Decode.text) fun did p => { p with did }]
  start := ⟨"", none, none, .empty⟩
  collect := some fun key value p => { p with extra := p.extra.insert key value.toJson }

end Participant

namespace Requirement

/-- A requirement as a JSON value. -/
def toJson : Requirement → Json
  | .all conditions => .object [("and", .array (conditions.map Condition.toJson))]
  | .any conditions => .object [("any", .array (conditions.map Condition.toJson))]

/-- The keys of the two kinds of requirement. -/
def kinds : List String := ["and", "any"]

/-- Decode the conditions of a requirement of the kind with this key. -/
def decodeKind (kind : String) (term : Term) : Decoded Requirement :=
  (Decode.list Condition.decode term).map (if kind = "and" then .all else .any)

/-- Decode a requirement. -/
def decode : Source → Term → Decoded Requirement := Decode.variant kinds decodeKind

end Requirement

namespace Rule

/-- A rule as a JSON value. -/
def toJson (r : Rule) : Json :=
  .object [("grant", .array (r.grant.toList.map .text)), ("when", r.requirement.toJson)]

/-- The record of a rule. -/
def record : Record Rule where
  name := "PermissionRule"
  fields := [
    .required "grant" (fun _ => Decode.list Decode.text) fun grant r =>
      { r with grant := .ofList grant },
    .required "when" Requirement.decode fun requirement r => { r with requirement }]
  start := ⟨.empty, .all []⟩
  collect := none

end Rule

namespace Framework

/-- The member of the credential definitions, which is left out if there are none. -/
def credDefsMember (credDefs : List LedgerEntry) : List (String × Json) :=
  if credDefs.isEmpty then [] else [("cred_defs", .array (credDefs.map LedgerEntry.toJson))]

/-- A framework as a JSON value. -/
def toJson (f : Framework) : Json :=
  .object ([("schemas", .array (f.schemas.map LedgerEntry.toJson))] ++ credDefsMember f.credDefs ++
    [("participants", .array (f.participants.map Participant.toJson)),
     ("roles", .array (f.roles.map .text)),
     ("permissions", .array (f.permissions.map Rule.toJson))] ++ f.extra.entries)

/-- The record of a framework. -/
def record : Record Framework where
  name := "GovernanceDoc"
  fields := [
    .required "schemas" (fun source => Decode.list (LedgerEntry.record.decode source))
      fun schemas f => { f with schemas },
    .withDefault "cred_defs" (fun source => Decode.list (LedgerEntry.record.decode source))
      fun credDefs f => { f with credDefs },
    .required "participants" (fun source => Decode.list (Participant.record.decode source))
      fun participants f => { f with participants },
    .required "roles" (fun _ => Decode.list Decode.text) fun roles f => { f with roles },
    .required "permissions" (fun source => Decode.list (Rule.record.decode source))
      fun permissions f => { f with permissions }]
  start := ⟨[], [], [], [], [], .empty⟩
  collect := some fun key value f => { f with extra := f.extra.insert key value.toJson }

/-- Decode a framework. -/
def decode : Source → Term → Decoded Framework := record.decode

/-- Read a framework from a text. -/
def parse (text : List Char) : Decoded Framework := Decode.wholeText decode text

/-- Read a framework from a value. -/
def ofJson (value : Json) : Decoded Framework := Decode.ofJson decode value

end Framework

end TrustMesh
