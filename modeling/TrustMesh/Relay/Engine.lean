import TrustMesh.Framework.Evaluation
import TrustMesh.Graph.Localized
import TrustMesh.Message.Codec
import TrustMesh.Relay.Event
import TrustMesh.Relay.ReturnPath
import TrustMesh.Relay.Seen
import TrustMesh.Relay.Settings

/-!
# The relay engine

The engine of a node takes the messages that arrive and the exchanges that its
application starts. One call is one function from the state to the new state together
with all that the call does: the outcome, the messages offered to the directory, in
order, and the questions put to the oracle. Identifiers of new exchanges are given by
the caller.

Frames that the directory refuses change nothing but the list of recipients.
-/

namespace TrustMesh

/-- Why a message has no effect. -/
inductive DropReason where
  | malformed
  | routeLoop
  | duplicate
  | unchanged
  | noPreviousHop
  | unknownSender
  | deadEnd
deriving DecidableEq

/-- The name of a reason. -/
def DropReason.name : DropReason → String
  | .malformed => "malformed"
  | .routeLoop => "route_loop"
  | .duplicate => "duplicate"
  | .unchanged => "unchanged"
  | .noPreviousHop => "no_previous_hop"
  | .unknownSender => "unknown_sender"
  | .deadEnd => "dead_end"

/-- What became of a message: the peers it was passed on to and the event it caused, or the reason
why it was dropped. -/
inductive Outcome where
  | handled (sent : List PeerId) (event : Option Event)
  | dropped (reason : DropReason)
deriving DecidableEq

namespace Outcome

/-- The peers that the message was passed on to. -/
def recipients : Outcome → List PeerId
  | .handled sent _ => sent
  | .dropped _ => []

/-- The event that the message caused. -/
def event? : Outcome → Option Event
  | .handled _ event => event
  | .dropped _ => none

/-- The reason why the message was dropped. -/
def dropReason? : Outcome → Option DropReason
  | .handled .. => none
  | .dropped reason => some reason

end Outcome

/-- What an application can start: the search for a peer, a gossip, or a compliance query. -/
inductive Exchange where
  | trace (target : PeerId)
  | gossip (members : List PeerId) (content : Json)
  | comply (framework : Framework)
deriving DecidableEq

/-- An exchange that was started: its identifier and the peers that its first message went to. -/
structure Started where
  id : MessageId
  sent : List PeerId
deriving DecidableEq

/-- A message that is offered on a channel. -/
structure Dispatch where
  link : Link
  message : Message
deriving DecidableEq

/-- The frame that is queued on the channel. -/
def Dispatch.frame (d : Dispatch) : Frame := d.message.encode

/-- The peers whose frames the directory accepts, in order. -/
def Directory.recipients (directory : Directory) (offered : List Dispatch) : List PeerId :=
  (offered.filter fun d => directory.accepts d.link d.frame).map (·.link.far)

/-- What surrounds an engine: its direct peers and the oracle for its credentials. -/
structure Surroundings where
  directory : Directory
  oracle : Oracle

/-- The state of an engine: who it is, its settings, the exchanges it remembers, and the graphs of
the compliance queries it started. -/
structure Engine where
  identity : Identity
  settings : Settings
  seen : SeenCache
  queries : Recency MessageId Graph
deriving DecidableEq

/-- All that one call does: its result, the new state, the messages offered and the questions asked,
both in order. -/
structure Step (α : Type) where
  result : α
  engine : Engine
  offered : List Dispatch
  asked : List Question

namespace Engine

/-- The engine with usable settings that has seen nothing yet. -/
def create (identity : Identity) (settings : Settings) : Except SettingsFault Engine :=
  match settings.fault? with
  | some fault => .error fault
  | none =>
    .ok ⟨identity, settings, .empty settings.seenCapacity, .empty settings.seenCapacity⟩

/-- The identifier that the engine uses on routes and in graphs. -/
def primary (e : Engine) : PeerId := e.identity.primary

/-- The graph of a compliance query that the engine started. -/
def workingGraph? (e : Engine) (id : MessageId) : Option Graph := e.queries.peek? id

/-- A graph as the application sees it. -/
def localize (e : Engine) (graph : Graph) : Graph := graph.localized e.identity e.settings.selfLabel

/-- Whether a message passed this node before. -/
def onRoute (e : Engine) (m : Message) : Bool := m.route.any e.identity.contains

/-! ## Offering messages -/

/-- One message for each peer that can be resolved. -/
def address (directory : Directory) (peers : List PeerId) (m : Message) : List Dispatch :=
  peers.filterMap fun peer => (directory.resolve peer).map (⟨·, m⟩)

/-- The peers that a message is spread to: all that are connected, except this node, the peers on
the route and the excluded peer. -/
def floodTargets (e : Engine) (directory : Directory) (m : Message) (excluded : Option PeerId) :
    List PeerId :=
  directory.connected.filter fun peer =>
    !e.identity.contains peer && some peer ≠ excluded && peer ∉ m.route

/-- The outcome of a call that offered messages. -/
def handled (s : Surroundings) (offered : List Dispatch) (event : Option Event) : Outcome :=
  .handled (s.directory.recipients offered) event

/-- A message is dropped; the state may have changed. -/
def drop (e : Engine) (reason : DropReason) : Step Outcome := ⟨.dropped reason, e, [], []⟩

/-- A message is handled by offering these and without an event. -/
def pass (e : Engine) (s : Surroundings) (offered : List Dispatch) : Step Outcome :=
  ⟨handled s offered none, e, offered, []⟩

/-- A message brings about an event and nothing else. -/
def tell (e : Engine) (event : Event) : Step Outcome := ⟨.handled [] (some event), e, [], []⟩

/-! ## Starting exchanges -/

/-- Start the search for a peer. A peer that is connected is asked directly. -/
def startTrace (e : Engine) (s : Surroundings) (id : MessageId) (target : PeerId) :
    Step Started :=
  let request : Message := ⟨id, [e.primary], .traceRequest target⟩
  let offered :=
    match s.directory.resolve target with
    | some link => [⟨link, request⟩]
    | none => address s.directory (e.floodTargets s.directory request none) request
  ⟨⟨id, s.directory.recipients offered⟩, { e with seen := (e.seen.mark id).2 }, offered, []⟩

/-- Start a gossip: every member other than this node is sent the content. -/
def startGossip (e : Engine) (s : Surroundings) (id : MessageId) (members : List PeerId)
    (content : Json) : Step Started :=
  let graph := Graph.single e.primary [e.settings.linkLabel]
  let gossip : Message := ⟨id, [e.primary], .gossip members content graph⟩
  let offered := address s.directory (members.filter fun peer => !e.identity.contains peer) gossip
  ⟨⟨id, s.directory.recipients offered⟩, { e with seen := (e.seen.observe id graph.digest).2 },
    offered, []⟩

/-- Whether a compliance query is new to the engine, which remembers it from now on. Unless queries
are deduplicated all are new and none is remembered. -/
def admitQuery (e : Engine) (id : MessageId) : Bool × Engine :=
  if e.settings.complianceDedup then
    ((e.seen.mark id).1, { e with seen := (e.seen.mark id).2 })
  else (true, e)

/-- Start a compliance query. Its graph begins with this node and the roles that the framework
grants to it. -/
def startCompliance (e : Engine) (s : Surroundings) (id : MessageId) (framework : Framework) :
    Step Started :=
  let request : Message := ⟨id, [e.primary], .complianceRequest framework⟩
  let evaluation := framework.evaluate s.oracle
  let roles := Decision.collect evaluation.decisions
  let offered := address s.directory (e.floodTargets s.directory request none) request
  ⟨⟨id, s.directory.recipients offered⟩,
    { (e.admitQuery id).2 with queries := e.queries.put id (.single e.primary roles.toList) },
    offered, evaluation.asked⟩

/-- Start an exchange. -/
def start (e : Engine) (s : Surroundings) (id : MessageId) : Exchange → Step Started
  | .trace target => e.startTrace s id target
  | .gossip members content => e.startGossip s id members content
  | .comply framework => e.startCompliance s id framework

/-! ## Handling messages -/

/-- A response goes back to the peer that the route names. -/
def forwardBack (e : Engine) (s : Surroundings) (m : Message) (link : Link) : Step Outcome :=
  e.pass s [⟨link, m⟩]

/-- Handle the search for a peer. The target answers the peer that it heard from; others pass the
search on, to the target alone if it is connected. -/
def onTraceRequest (e : Engine) (s : Surroundings) (m : Message) (target : PeerId) :
    Step Outcome :=
  if m.hasLoop || e.onRoute m then e.drop .routeLoop
  else
    let (isNew, seen) := e.seen.mark m.id
    let e := { e with seen }
    if !isNew then e.drop .duplicate
    else if e.identity.contains target then
      match m.previousHop? with
      | none => e.drop .noPreviousHop
      | some previous =>
        let response := m.reply (.traceResponse target (.single target []))
        e.pass s (address s.directory [previous] response)
    else
      let request := m.extended e.primary
      match s.directory.resolve target with
      | some link => e.pass s [⟨link, request⟩]
      | none => e.pass s (address s.directory (e.floodTargets s.directory m none) request)

/-- Add the links between neighbours on a path. -/
def addPath (label : String) : Graph → List PeerId → Graph
  | g, a :: b :: rest => addPath label (g.observe (.ofLink ⟨a, b⟩ label)) (b :: rest)
  | g, _ => g

/-- Handle the answer to a search. Where the search began, the route and the target make up the
path that was found. -/
def onTraceResponse (e : Engine) (s : Surroundings) (m : Message) (target : PeerId)
    (graph : Graph) : Step Outcome :=
  match ReturnHop.ofRoute m.route e.identity s.directory with
  | .deliver =>
    let path := m.route ++ [target]
    e.tell (.routeDiscovered m.id target (path.drop 1)
      (e.localize (addPath e.settings.linkLabel graph path)))
  | .forward link => e.forwardBack s m link
  | .deadEnd => e.drop .deadEnd

/-- Add the peer that a gossip came from to its graph, or this node if the peer is unknown. -/
def observeSender (e : Engine) (directory : Directory) (graph : Graph) :
    Option PeerId → Graph
  | some peer =>
    graph.observe (.ofLink ((directory.resolve peer).getD ⟨e.primary, peer⟩) e.settings.linkLabel)
  | none => graph.addLabels e.primary [e.settings.linkLabel]

/-- Handle a gossip. The first copy is passed on to the other members and shown to the application;
a later copy matters only if its graph differs from that of the copy before. -/
def onGossip (e : Engine) (s : Surroundings) (sender : Option PeerId) (m : Message)
    (members : List PeerId) (content : Json) (graph : Graph) : Step Outcome :=
  let (sighting, seen) := e.seen.observe m.id graph.digest
  let e := { e with seen }
  match sighting with
  | .unchanged => e.drop .unchanged
  | .changed => e.tell (.graphUpdated m.id (e.localize graph))
  | .first =>
    let sender := sender.or m.previousHop?
    let graph := e.observeSender s.directory graph sender
    let onward : Message := ⟨m.id, m.route ++ [e.primary], .gossip members content graph⟩
    let offered := address s.directory
      (members.filter fun peer => !e.identity.contains peer && some peer ≠ sender) onward
    ⟨handled s offered
      (some (.gossipReceived m.id content members (e.localize graph) sender)), e, offered, []⟩

/-- Answer the peer that a compliance query came from with the roles that the framework grants to
this node, and spread the query further. -/
def answerQuery (e : Engine) (s : Surroundings) (sender : PeerId) (m : Message)
    (framework : Framework) : Step Outcome :=
  let evaluation := framework.evaluate s.oracle
  let roles := Decision.collect evaluation.decisions
  let graph := (Graph.single e.primary roles.toList).addEdge e.primary sender e.settings.linkLabel
  let response := m.reply (.complianceResponse graph)
  let request := m.extended e.primary
  let offered := address s.directory [sender] response ++
    address s.directory (e.floodTargets s.directory m (some sender)) request
  { e.pass s offered with asked := evaluation.asked }

/-- Handle a compliance query: one that is new and whose sender is known is answered. -/
def onComplianceRequest (e : Engine) (s : Surroundings) (sender : Option PeerId) (m : Message)
    (framework : Framework) : Step Outcome :=
  if m.hasLoop || e.onRoute m then e.drop .routeLoop
  else
    let (isNew, e) := e.admitQuery m.id
    if !isNew then e.drop .duplicate
    else
      match sender.or m.previousHop? with
      | none => e.drop .unknownSender
      | some sender => e.answerQuery s sender m framework

/-- Handle the answer to a compliance query. Where the query began, the graph of the query absorbs
the answer; an answer to an unknown query starts a graph of its own. -/
def onComplianceResponse (e : Engine) (s : Surroundings) (m : Message) (graph : Graph) :
    Step Outcome :=
  match ReturnHop.ofRoute m.route e.identity s.directory with
  | .deliver =>
    let working :=
      match e.queries.peek? m.id with
      | some working => working.absorb graph
      | none => graph
    let e := { e with queries := e.queries.put m.id working }
    e.tell (.complianceUpdated m.id (e.localize working))
  | .forward link => e.forwardBack s m link
  | .deadEnd => e.drop .deadEnd

/-- Handle a message that came from `sender`. -/
def handle (e : Engine) (s : Surroundings) (sender : Option PeerId) (m : Message) : Step Outcome :=
  match m.body with
  | .traceRequest target => e.onTraceRequest s m target
  | .traceResponse target graph => e.onTraceResponse s m target graph
  | .gossip members content graph => e.onGossip s sender m members content graph
  | .complianceRequest framework => e.onComplianceRequest s sender m framework
  | .complianceResponse graph => e.onComplianceResponse s m graph

/-- Handle the bytes of a message that came from `sender`. -/
def handleFrame (e : Engine) (s : Surroundings) (sender : Option PeerId) (frame : Frame) :
    Step Outcome :=
  match Message.decode frame with
  | .ok m => e.handle s sender m
  | .error _ => e.drop .malformed

end Engine

end TrustMesh
