import TrustMesh.Graph.Basic

/-!
# Graphs as an application sees them

Before a graph is shown to the application of a node, all identifiers of that node are
read as one node `me`. It carries the labels of all of them; edges between two of
them disappear.
-/

namespace TrustMesh

/-- The identifier that stands for the local node. -/
def PeerId.me : PeerId := ⟨"me"⟩

/-- A peer as the local node sees it. -/
def Identity.localize (identity : Identity) (peer : PeerId) : PeerId :=
  if identity.contains peer then .me else peer

namespace Graph

/-- The nodes of other peers. -/
def foreignNodes (g : Graph) (identity : Identity) : List Node :=
  g.nodes.values.filter fun node => !identity.contains node.id

/-- The labels of the nodes that are the local node. -/
def ownLabels (g : Graph) (identity : Identity) : OrderedSet String :=
  .ofList ((g.nodes.values.filter fun node => identity.contains node.id).flatMap (·.labels.toList))

/-- The node that stands for the local node, shown under the name `selfLabel`. -/
def selfNode (g : Graph) (identity : Identity) (selfLabel : String) : Node :=
  ⟨.me, selfLabel, g.ownLabels identity⟩

/-- An edge with its ends as the local node sees them; none if both are the local node. -/
def localizeEdge? (identity : Identity) (e : Edge) : Option Edge :=
  let source := identity.localize e.source
  let target := identity.localize e.target
  if source = target then none else some (.between source target e.label)

/-- The graph with all identifiers of a node read as `me`. Of several edges that come to join the
same two peers the first is kept. -/
def localized (g : Graph) (identity : Identity) (selfLabel : String) : Graph where
  nodes := (OrderedMap.ofList ((g.foreignNodes identity).map fun node => (node.id, node))).insert
    .me (g.selfNode identity selfLabel)
  edges := (g.edges.values.filterMap (localizeEdge? identity)).foldl
    (fun edges e => edges.insertNew e.id e) .empty

end Graph

end TrustMesh
