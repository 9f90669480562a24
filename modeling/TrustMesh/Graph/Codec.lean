import TrustMesh.Graph.Basic
import TrustMesh.Json.Record

/-!
# The written form of graphs

A graph is written as the list of its nodes and the list of its links, each in the
order of identifiers. Reading is lenient: nodes and links may be repeated, labels of
one node accumulate, the last name given wins, and the identifier of a link is
ignored, since it follows from its ends.
-/

namespace TrustMesh

/-- A node as it is written. -/
structure NodeEntry where
  id : PeerId
  name : Option String
  labels : List String

/-- A link as it is written, without its identifier. -/
structure LinkEntry where
  source : PeerId
  target : PeerId
  label : String

/-- A graph as it is written. -/
structure GraphListing where
  nodes : List NodeEntry
  links : List LinkEntry

/-- A node as a JSON value. -/
def Node.toJson (n : Node) : Json :=
  .object [("id", .text n.id.text), ("name", .text n.name),
    ("auras", .array (n.labels.toList.map .text))]

/-- An edge as a JSON value. -/
def Edge.toJson (e : Edge) : Json :=
  .object [("id", .text e.id.text), ("from", .text e.source.text), ("to", .text e.target.text),
    ("label", .text e.label)]

/-- The record of a node. -/
def NodeEntry.record : Record NodeEntry where
  name := "NodeWire"
  fields := [
    .required "id" (fun _ => PeerId.decode) fun id n => { n with id },
    .withDefault "name" (fun _ => Decode.optional Decode.text) fun name n => { n with name },
    .withDefault "auras" (fun _ => Decode.list Decode.text) fun labels n => { n with labels }]
  start := ⟨⟨""⟩, none, []⟩
  collect := none

/-- The record of a link. -/
def LinkEntry.record : Record LinkEntry where
  name := "LinkWire"
  fields := [
    .withDefault "id" (fun _ => Decode.optional Decode.text) fun _ l => l,
    .required "from" (fun _ => PeerId.decode) fun source l => { l with source },
    .required "to" (fun _ => PeerId.decode) fun target l => { l with target },
    .withDefault "label" (fun _ => Decode.text) fun label l => { l with label }]
  start := ⟨⟨""⟩, ⟨""⟩, ""⟩
  collect := none

/-- The record of a graph. -/
def GraphListing.record : Record GraphListing where
  name := "GraphWire"
  fields := [
    .withDefault "nodes" (fun source => Decode.list (NodeEntry.record.decode source))
      fun nodes g => { g with nodes },
    .withDefault "links" (fun source => Decode.list (LinkEntry.record.decode source))
      fun links g => { g with links }]
  start := ⟨[], []⟩
  collect := none

namespace Graph

/-- Give the node of a peer a name. -/
def rename (g : Graph) (peer : PeerId) (name : String) : Graph :=
  { g with nodes := g.nodes.alter peer fun old => { old.getD (.plain peer) with name } }

/-- Add a node as it is written. -/
def addEntry (g : Graph) (n : NodeEntry) : Graph :=
  match n.name with
  | some name => (g.addLabels n.id n.labels).rename n.id name
  | none => g.addLabels n.id n.labels

/-- The graph that a listing describes. -/
def ofListing (listing : GraphListing) : Graph :=
  listing.links.foldl (fun g link => g.addEdge link.source link.target link.label)
    (listing.nodes.foldl addEntry empty)

/-- A graph as a JSON value. -/
def toJson (g : Graph) : Json :=
  .object [("nodes", .array (g.nodes.values.map Node.toJson)),
    ("links", .array (g.edges.values.map Edge.toJson))]

/-- Decode a graph. -/
def decode (source : Source) (term : Term) : Decoded Graph :=
  (GraphListing.record.decode source term).map ofListing

/-- The digest of a graph. -/
def digest (g : Graph) : Digest := .ofJson g.toJson

end Graph

end TrustMesh
