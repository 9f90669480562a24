import TrustMesh.Graph.Codec
import TrustMesh.Json.Printer
import TrustMesh.Tool.Topology

/-!
# Simulating an exchange

Builds the network of a topology, starts one exchange at one of its nodes and prints what
the events tell: of a trace the graph of the first route, of a compliance query the last
graph, of a gossip the last graph at each node that had one.
-/

namespace TrustMesh

/-- The exchange to simulate; a compliance query names the file of its framework. -/
inductive SimulatedExchange where
  | trace (target : PeerId)
  | gossip (members : List PeerId) (content : String)
  | comply (framework : String)
deriving DecidableEq

/-- What is to be simulated: the file of a topology, the node that starts the exchange unless it is
the local one, and the exchange. -/
structure Simulate where
  topology : String
  origin : Option PeerId
  exchange : SimulatedExchange
deriving DecidableEq

namespace Simulate

/-- The events that a node of a network comes to tell, and the network afterwards. `limit` bounds
the number of turns. -/
def events (limit : Nat) (n : Network) (peer : PeerId) : List Event × Network :=
  let (taken, next) := n.drain limit [peer] limit
  ((taken.get? peer).getD [], next)

/-- The graph of the last event. -/
def latestGraph? (events : List Event) : Option Graph := events.getLast?.map Event.graph

/-- The graph of the first route that is discovered. -/
def firstRoute? (events : List Event) : Option Graph :=
  events.findSome? fun
    | .routeDiscovered _ _ _ graph => some graph
    | _ => none

/-- The last graph at each of the peers that has one. -/
def latestGraphs (limit : Nat) : List PeerId → Network → List (PeerId × Graph)
  | [], _ => []
  | peer :: rest, n =>
    let (told, next) := events limit n peer
    match latestGraph? told with
    | some graph => (peer, graph) :: latestGraphs limit rest next
    | none => latestGraphs limit rest next

/-- A network in which an exchange was started. -/
def started (n : Network) (origin : PeerId) (exchange : Exchange) : Except Failure Network :=
  match n.start origin exchange with
  | .ok (_, next) => .ok next
  | .error fault => .error (Cause.relay fault).alone

/-- What an exchange of a network brings about. -/
def report (limit : Nat) (files : Files) (n : Network) (origin : PeerId) :
    SimulatedExchange → Except Failure Json
  | .trace target => do
    let next ← started n origin (.trace target)
    match firstRoute? (events limit next origin).1 with
    | some graph => return graph.toJson
    | none => throw (Cause.noRoute target).alone
  | .gossip members content => do
    let next ← started n origin (.gossip members (.text content))
    let graphs := latestGraphs limit next.nodes.keys next
    return .object (graphs.map fun (peer, graph) => (peer.text, graph.toJson))
  | .comply path => do
    let framework ← Framework.load files path
    let next ← started n origin (.comply framework)
    return ((latestGraph? (events limit next origin).1).getD .empty).toJson

/-- What is printed. -/
def run (limit : Nat) (ids : Nat → MessageId) (files : Files) (here : LocalNode)
    (settings : Settings) (s : Simulate) : Except Failure String := do
  let topology ← Topology.load files s.topology
  match s.origin.or here.id with
  | none => throw Cause.noOrigin.alone
  | some origin =>
    match topology.network here settings ids with
    | .error fault => throw (Cause.relay fault.asRelayFault).alone
    | .ok network =>
      if topology.population.contains origin then
        let value ← report limit files network origin s.exchange
        return value.canonical.pretty ++ "\n"
      else throw (Cause.unknownOrigin origin).alone

end Simulate

end TrustMesh
