import TrustMesh.Framework.Codec
import TrustMesh.Graph.Codec
import TrustMesh.Message.Basic
import TrustMesh.Text.Utf8

/-!
# The written form of messages

A message is written as one object: its identifier, the route, the type that tells the
kind of its body, and the fields of the body.

The identifier and the route are read as they come. All other members are kept as they
are; when the object ends, the type is looked up among them and the body is read from
the rest.
-/

namespace TrustMesh

namespace MessageKind

/-- All kinds, in the order in which they are numbered. -/
def all : List MessageKind :=
  [.traceRequest, .traceResponse, .gossip, .complianceRequest, .complianceResponse]

/-- The type that is written for a kind. -/
def uri : MessageKind → String
  | .traceRequest => "https://didcomm.org/govmesh-relay/1.0/trace-request"
  | .traceResponse => "https://didcomm.org/govmesh-relay/1.0/trace-response"
  | .gossip => "https://didcomm.org/govmesh-relay/1.0/gossip"
  | .complianceRequest => "https://didcomm.org/govmesh-relay/1.0/compliance-request"
  | .complianceResponse => "https://didcomm.org/govmesh-relay/1.0/compliance-response"

/-- Decode a type: its URI or its number. -/
def decode : Term → Decoded MessageKind
  | .text name =>
    match all.find? (·.uri = name) with
    | some kind => .ok kind
    | none => .error (.mismatch (.unknownVariant name (all.map uri)))
  | .number (.integer index) =>
    if index < 0 then .error ((Term.number (.integer index)).refuse .variantName)
    else
      match all[index.toNat]? with
      | some kind => .ok kind
      | none => .error (.mismatch (.variantOutOfRange index all.length))
  | term => .error (term.refuse .variantName)

end MessageKind

namespace Body

/-- The fields of a body. -/
def members : Body → List (String × Json)
  | .traceRequest target => [("target", .text target.text)]
  | .traceResponse target graph => [("target", .text target.text), ("graph", graph.toJson)]
  | .gossip members content graph =>
    [("members", PeerId.listToJson members), ("content", content), ("graph", graph.toJson)]
  | .complianceRequest framework => [("doc", framework.toJson)]
  | .complianceResponse graph => [("graph", graph.toJson)]

/-- The fields that bodies are made of. -/
structure Fields where
  target : PeerId
  members : List PeerId
  content : Json
  framework : Framework
  graph : Graph

/-- The fields before any of them is read. -/
def Fields.start : Fields := ⟨⟨""⟩, [], .null, Framework.record.start, .empty⟩

/-- The target of a trace. -/
def targetField : Field Fields :=
  .required "target" (fun _ => PeerId.decode) fun target f => { f with target }

/-- A graph that is empty if it is missing. -/
def graphField : Field Fields :=
  .withDefault "graph" Graph.decode fun graph f => { f with graph }

/-- The record of the bodies of a kind. -/
def record : MessageKind → Record Fields
  | .traceRequest => ⟨"TraceRequest", [targetField], .start, none⟩
  | .traceResponse => ⟨"TraceResponse", [targetField, graphField], .start, none⟩
  | .gossip => ⟨"Gossip", [
      .withDefault "members" (fun _ => PeerId.decodeList) fun members f => { f with members },
      .withDefault "content" (fun _ => Decode.any) fun content f => { f with content },
      graphField], .start, none⟩
  | .complianceRequest => ⟨"ComplianceRequest", [
      .required "doc" Framework.decode fun framework f => { f with framework }], .start, none⟩
  | .complianceResponse => ⟨"ComplianceResponse", [
      .required "graph" Graph.decode fun graph f => { f with graph }], .start, none⟩

/-- The body of a kind with these fields. -/
def ofFields (f : Fields) : MessageKind → Body
  | .traceRequest => .traceRequest f.target
  | .traceResponse => .traceResponse f.target f.graph
  | .gossip => .gossip f.members f.content f.graph
  | .complianceRequest => .complianceRequest f.framework
  | .complianceResponse => .complianceResponse f.graph

/-- The key under which the type is written. -/
def typeKey : String := "@type"

/-- Find the type among the members of a message; the other members are kept in order. -/
def splitType : Option MessageKind → List (Term × Term) →
    Decoded (Option MessageKind × List (Term × Term))
  | kind, [] => .ok (kind, [])
  | kind, (.text key, value) :: rest =>
    if key = typeKey then
      if kind.isSome then .error (.mismatch (.duplicateField typeKey))
      else
        match MessageKind.decode value with
        | .ok found => splitType (some found) rest
        | .error fault => .error fault
    else (splitType kind rest).map fun (found, others) => (found, (.text key, value) :: others)
  | kind, member :: rest =>
    (splitType kind rest).map fun (found, others) => (found, member :: others)

/-- Decode a body from the members of a message that are neither identifier nor route. -/
def decode (members : List (Term × Term)) : Decoded Body :=
  match splitType none members with
  | .error fault => .error fault
  | .ok (none, _) => .error (.mismatch (.missingField typeKey))
  | .ok (some kind, others) =>
    ((record kind).decode .buffer (.object others)).map fun fields => ofFields fields kind

end Body

namespace Message

/-- A message as a JSON value. -/
def toJson (m : Message) : Json :=
  .object (("@id", .text m.id.text) :: ("route", PeerId.listToJson m.route) ::
    (Body.typeKey, .text m.body.kind.uri) :: m.body.members)

/-- A message whose body has not been read: its members are kept in order. -/
structure Sealed where
  id : MessageId
  route : List PeerId
  members : List (Term × Term)

/-- The record of a message. -/
def record : Record Sealed where
  name := "Envelope"
  fields := [
    .required "@id" (fun _ => MessageId.decode) fun id m => { m with id },
    .withDefault "route" (fun _ => PeerId.decodeList) fun route m => { m with route }]
  start := ⟨.zero, [], []⟩
  collect := some fun key value m => { m with members := m.members ++ [(.text key, value)] }

/-- Decode a message. -/
def decodeTerm (source : Source) (term : Term) : Decoded Message := do
  let outer ← record.decode source term
  let body ← Body.decode outer.members
  return ⟨outer.id, outer.route, body⟩

/-- The bytes of a message. -/
def encode (m : Message) : Frame := Utf8.encode m.toJson.chars

/-- Read a message from its bytes. -/
def decode (frame : Frame) : Decoded Message := Decode.wholeText decodeTerm (Utf8.decode frame)

end Message

end TrustMesh
