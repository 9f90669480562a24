import TrustMesh.Graph.EdgeId
import TrustMesh.Peer.Link

/-!
# Connectivity graphs

A graph holds labelled peers and one edge for each pair of peers that are joined. It
grows in three ways: by single nodes and edges, by the observation of a link, and by
taking over all that another graph holds (`absorb`). Nothing that is in a graph is
changed by growth except that nodes gain labels: a node keeps its name, an edge its
direction and its label.
-/

namespace TrustMesh

/-- A peer in a graph: its identifier, the name it is shown under, and its labels. -/
structure Node where
  id : PeerId
  name : String
  labels : OrderedSet String
deriving DecidableEq

/-- An edge of a graph. -/
structure Edge where
  id : EdgeId
  source : PeerId
  target : PeerId
  label : String
deriving DecidableEq

/-- A graph of peers. -/
structure Graph where
  nodes : OrderedMap PeerId Node
  edges : OrderedMap EdgeId Edge
deriving DecidableEq

/-- The node of a peer before it has any label. -/
def Node.plain (peer : PeerId) : Node := ⟨peer, peer.text, .empty⟩

/-- The node with further labels. -/
def Node.addLabels (n : Node) (labels : List String) : Node :=
  { n with labels := n.labels.insertAll labels }

/-- The node with the labels of another one. -/
def Node.join (n other : Node) : Node := { n with labels := n.labels ∪ other.labels }

/-- The edge between two peers. -/
def Edge.between (source target : PeerId) (label : String) : Edge :=
  ⟨.between source target, source, target, label⟩

/-- A peer that was seen over a link, and the label for what was seen. -/
structure Observation where
  peer : PeerId
  link : Link
  label : String
deriving DecidableEq

/-- The observation of the remote end of a link. -/
def Observation.ofLink (link : Link) (label : String) : Observation := ⟨link.far, link, label⟩

namespace Graph

/-- The graph without nodes and edges. -/
def empty : Graph := ⟨.empty, .empty⟩

instance : EmptyCollection Graph := ⟨empty⟩
instance : Inhabited Graph := ⟨empty⟩

/-- Whether the graph has neither nodes nor edges. -/
def isEmpty (g : Graph) : Bool := g.nodes.entries.isEmpty && g.edges.entries.isEmpty

/-- The node of a peer. -/
def node? (g : Graph) (peer : PeerId) : Option Node := g.nodes.get? peer

/-- The edge between two peers, in either direction. -/
def edge? (g : Graph) (a b : PeerId) : Option Edge := g.edges.get? (.between a b)

/-- Add labels to the node of a peer, which is created if there is none. -/
def addLabels (g : Graph) (peer : PeerId) (labels : List String) : Graph :=
  { g with nodes := g.nodes.alter peer fun old => (old.getD (.plain peer)).addLabels labels }

/-- The graph of one node. -/
def single (peer : PeerId) (labels : List String) : Graph := empty.addLabels peer labels

/-- Join two peers by an edge unless they are joined already. -/
def addEdge (g : Graph) (source target : PeerId) (label : String) : Graph :=
  { g with edges := g.edges.insertNew (.between source target) (.between source target label) }

/-- Add an observation: the peer and the near end of the link gain its label, and the two are
joined. -/
def observe (g : Graph) (o : Observation) : Graph :=
  ((g.addLabels o.peer [o.label]).addLabels o.link.near [o.label]).addEdge o.link.near o.peer
    o.label

/-- Take over all that another graph holds. Nodes of both graphs join their labels; names and
edges of the first graph are kept. -/
def absorb (g h : Graph) : Graph :=
  ⟨g.nodes.mergeWith Node.join h.nodes, g.edges.mergeWith (fun old _ => old) h.edges⟩

end Graph

end TrustMesh
