import TrustMesh.Framework.Basic
import TrustMesh.Graph.Basic
import TrustMesh.Message.Id

/-!
# Messages

A message belongs to an exchange, named by its identifier, and carries the route that
the exchange took so far. There are three kinds of exchange. A *trace* looks for a
peer: requests flood the mesh and responses carry a graph back along the route. A
*gossip* spreads content among members and a graph with it. A *compliance query*
spreads a framework; every peer that it reaches answers with a graph.
-/

namespace TrustMesh

/-- The kinds of message. -/
inductive MessageKind where
  | traceRequest
  | traceResponse
  | gossip
  | complianceRequest
  | complianceResponse
deriving DecidableEq

/-- What a message says. -/
inductive Body where
  | traceRequest (target : PeerId)
  | traceResponse (target : PeerId) (graph : Graph)
  | gossip (members : List PeerId) (content : Json) (graph : Graph)
  | complianceRequest (framework : Framework)
  | complianceResponse (graph : Graph)
deriving DecidableEq

/-- The kind of a body. -/
def Body.kind : Body → MessageKind
  | .traceRequest .. => .traceRequest
  | .traceResponse .. => .traceResponse
  | .gossip .. => .gossip
  | .complianceRequest .. => .complianceRequest
  | .complianceResponse .. => .complianceResponse

/-- The name of a kind. -/
def MessageKind.name : MessageKind → String
  | .traceRequest => "trace_request"
  | .traceResponse => "trace_response"
  | .gossip => "gossip"
  | .complianceRequest => "compliance_request"
  | .complianceResponse => "compliance_response"

/-- A message: the exchange it belongs to, the peers that the exchange passed, and what it says. -/
structure Message where
  id : MessageId
  route : List PeerId
  body : Body
deriving DecidableEq

namespace Message

/-- The answer to a message: it belongs to the same exchange and keeps the route. -/
def reply (m : Message) (body : Body) : Message := { m with body }

/-- The message after it passed a peer. -/
def extended (m : Message) (hop : PeerId) : Message := { m with route := m.route ++ [hop] }

/-- The last peer of the route. -/
def previousHop? (m : Message) : Option PeerId := m.route.getLast?

/-- Whether a peer occurs more than once on the route. -/
def hasLoop (m : Message) : Bool := !decide m.route.Nodup

/-- How a message is shown in a log. -/
def describe (m : Message) : String := s!"{m.body.kind.name}({m.id.text})"

end Message

end TrustMesh
