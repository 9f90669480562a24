import TrustMesh.Mesh.Network
import TrustMesh.Tool.NodeFile

/-!
# Topologies

A topology declares nodes with what they hold and the links between nodes. A node that
only links mention holds nothing. Of two declarations of one node the later counts.
-/

namespace TrustMesh

/-- The declaration of a node. -/
structure DeclaredNode where
  id : PeerId
  aliases : List PeerId
  holdings : Holdings
deriving DecidableEq

namespace DeclaredNode

/-- The node that only links mention. -/
def mentioned (id : PeerId) : DeclaredNode := ⟨id, [], .empty⟩

/-- The record of a node. -/
def record : Record DeclaredNode where
  name := "node"
  fields := [
    .required "id" (fun _ => PeerId.decode) fun id n => { n with id },
    .withDefault "aliases" (fun _ => PeerId.decodeList) fun aliases n => { n with aliases },
    .withDefault "holdings" Holdings.decode fun holdings n => { n with holdings }]
  start := mentioned ⟨""⟩
  collect := none

/-- The identity of a node. The local node also has the aliases that its own settings name. -/
def identity (n : DeclaredNode) (here : LocalNode) : Identity :=
  .ofPeers n.id (n.aliases ++ if here.id = some n.id then here.aliases else [])

end DeclaredNode

/-- Nodes and the links between them. -/
structure Topology where
  nodes : List DeclaredNode
  links : List (PeerId × PeerId)
deriving DecidableEq

namespace Topology

/-- Decode a link: the peers at its ends, and anything behind them. -/
def decodeLink : Term → Decoded (PeerId × PeerId)
  | .array (a :: b :: _) => do return (← PeerId.decode a, ← PeerId.decode b)
  | term => .error (term.refuse .sequence)

/-- The record of a topology. -/
def record : Record Topology where
  name := "topology"
  fields := [
    .withDefault "nodes" (fun source => Decode.list (DeclaredNode.record.decode source))
      fun nodes t => { t with nodes },
    .withDefault "links" (fun _ => Decode.list decodeLink) fun links t => { t with links }]
  start := ⟨[], []⟩
  collect := none

/-- The topology that a TOML text describes. -/
def parse (cs : List Char) : Except Cause Topology :=
  match Toml.decode? record.decode cs with
  | some topology => .ok topology
  | none => .error .notToml

/-- Load a topology. -/
def load (files : Files) (path : String) : Except Failure Topology := do
  match parse (← files.readInput .topology path) with
  | .ok topology => return topology
  | .error cause => throw ⟨.parsing .topology path, [cause]⟩

/-- The nodes that are declared. -/
def declared (t : Topology) : OrderedMap PeerId DeclaredNode :=
  .ofList (t.nodes.map fun node => (node.id, node))

/-- All nodes, declared or mentioned by a link. -/
def population (t : Topology) : OrderedMap PeerId DeclaredNode :=
  (t.links.flatMap fun (a, b) => [a, b]).foldl (fun nodes id => nodes.insertNew id (.mentioned id))
    t.declared

/-- The network of a topology. Each node has its first turn before anything is sent. -/
def network (t : Topology) (here : LocalNode) (settings : Settings) (ids : Nat → MessageId) :
    Except SettingsFault Network := do
  let linked := t.links.foldl (fun n (a, b) => n.connect a b) (.empty ids)
  let spawned ← t.population.values.foldlM (fun n node =>
    n.spawn (node.identity here) node.holdings.oracle settings) linked
  return t.population.keys.foldl .enqueue spawned

end Topology

end TrustMesh
