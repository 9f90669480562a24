import TrustMesh.Graph.Localized
import TrustMesh.Message.Id

/-!
# Events

Events tell the application of a node what its exchanges bring about. The graph of an
event shows the local node as `me`.
-/

namespace TrustMesh

/-- What a node tells its application. -/
inductive Event where
  | routeDiscovered (id : MessageId) (target : PeerId) (route : List PeerId) (graph : Graph)
  | gossipReceived (id : MessageId) (content : Json) (members : List PeerId) (graph : Graph)
      (sender : Option PeerId)
  | graphUpdated (id : MessageId) (graph : Graph)
  | complianceUpdated (id : MessageId) (graph : Graph)
deriving DecidableEq

namespace Event

/-- The exchange that an event belongs to. -/
def id : Event → MessageId
  | .routeDiscovered id .. => id
  | .gossipReceived id .. => id
  | .graphUpdated id .. => id
  | .complianceUpdated id .. => id

/-- The graph that an event carries. -/
def graph : Event → Graph
  | .routeDiscovered _ _ _ graph => graph
  | .gossipReceived _ _ _ graph _ => graph
  | .graphUpdated _ graph => graph
  | .complianceUpdated _ graph => graph

end Event

end TrustMesh
