import TrustMesh.Mesh.RelayNode

/-!
# Networks

A network joins nodes by links and carries frames from inbox to inbox. A node knows the
peers that it was linked to when it was spawned. A frame reaches a linked peer if that
peer is registered and still runs.

Nodes take turns: the first node in the queue does everything in its inbox, then the
next one. A node joins the queue when something is put into its inbox.
-/

namespace TrustMesh

/-- A network: the links, the nodes that were spawned, which of them are registered, the queue of
nodes that may have something to do, and how many exchanges were started and tickets given out.
`ids` are the identifiers for exchanges. -/
structure Network where
  links : OrderedMap PeerId (OrderedSet PeerId)
  nodes : OrderedMap PeerId RelayNode
  registered : OrderedSet PeerId
  queue : List PeerId
  ids : Nat → MessageId
  started : Nat
  tickets : Nat

namespace Network

/-- The network without links and nodes. -/
def empty (ids : Nat → MessageId) : Network := ⟨.empty, .empty, .empty, [], ids, 0, 0⟩

/-- Link two peers. -/
def connect (n : Network) (a b : PeerId) : Network :=
  let link (near far : PeerId) (links : OrderedMap PeerId (OrderedSet PeerId)) :=
    links.alter near fun old => (old.getD .empty).insert far
  { n with links := link b a (link a b n.links) }

/-- The peers that a peer is linked to. -/
def neighbours (n : Network) (peer : PeerId) : OrderedSet PeerId := (n.links.get? peer).getD .empty

/-- All linked peers. -/
def peers (n : Network) : List PeerId := n.links.keys

/-- The registered node of a peer. -/
def handle? (n : Network) (peer : PeerId) : Option RelayNode :=
  if peer ∈ n.registered then n.nodes.get? peer else none

/-- What becomes of a frame on a link: the far end has to be a neighbour, registered, and
running. -/
def send (n : Network) (neighbours : OrderedSet PeerId) (link : Link) : Except SendFailure Unit :=
  if link.far ∉ neighbours then .error (.unreachable link.far)
  else
    match n.handle? link.far with
    | none => .error (.unreachable link.far)
    | some node =>
      if node.alive then .ok ()
      else .error (.refused link (RelayFault.nodeStopped link.far).message)

/-- The directory of a peer with these neighbours. -/
def directory (n : Network) (near : PeerId) (neighbours : OrderedSet PeerId) : Directory where
  connected := neighbours.toList
  resolve peer := if peer ∈ neighbours then some ⟨near, peer⟩ else none
  send link _ := n.send neighbours link

/-- Replace the node of a peer. -/
def setNode (n : Network) (peer : PeerId) (node : RelayNode) : Network :=
  { n with nodes := n.nodes.insert peer node }

/-- Let a node join the queue. -/
def enqueue (n : Network) (peer : PeerId) : Network :=
  if peer ∈ n.queue then n else { n with queue := n.queue ++ [peer] }

/-- Spawn a node and register it. A node of the same peer is replaced. -/
def spawn (n : Network) (identity : Identity) (oracle : Oracle) (settings : Settings) :
    Except SettingsFault Network :=
  match Engine.create identity settings with
  | .error fault => .error fault
  | .ok engine =>
    let peer := identity.primary
    .ok { n.setNode peer (.create engine oracle (n.neighbours peer)) with
      registered := n.registered.insert peer }

/-- Put a command into the inbox of a peer. -/
def submit (n : Network) (peer : PeerId) (command : Command) : Except RelayFault Network :=
  match n.nodes.get? peer with
  | none => .error (.nodeStopped peer)
  | some node =>
    match node.submit command with
    | .ok node => .ok ((n.setNode peer node).enqueue peer)
    | .error fault => .error fault

/-- Put a command into the inbox of a peer, if the peer takes it. -/
def post (n : Network) (peer : PeerId) (command : Command) : Network :=
  match n.submit peer command with
  | .ok n => n
  | .error _ => n

/-- Start an exchange at a peer. Gives the ticket under which the answer will be filed. -/
def start (n : Network) (peer : PeerId) (exchange : Exchange) : Except RelayFault (Nat × Network) :=
  match n.submit peer (.start n.tickets exchange) with
  | .ok next => .ok (n.tickets, { next with tickets := n.tickets + 1 })
  | .error fault => .error fault

/-- The answer to a ticket of a peer. A node that stopped before it answered does not answer. -/
def answer (n : Network) (peer : PeerId) (ticket : Nat) : Except RelayFault Started :=
  match (n.nodes.get? peer).bind (·.answer? ticket) with
  | some started => .ok started
  | none => .error (.nodeStopped peer)

/-- Stop and unregister all registered nodes. -/
def shutdown (n : Network) : Network :=
  n.registered.toList.foldl (fun n peer => n.post peer .shutdown) { n with registered := .empty }

/-- Put a frame into the inbox of the far end of its link, if the directory accepts it. -/
def route (directory : Directory) (n : Network) (d : Dispatch) : Network :=
  if directory.accepts d.link d.frame then n.post d.link.far (.deliver (some d.link.near) d.frame)
  else n

/-- Let a peer do the first command of its inbox. -/
def act (n : Network) (peer : PeerId) : Network :=
  match n.nodes.get? peer with
  | none => n
  | some node =>
    let directory := n.directory peer node.neighbours
    let action := node.act directory (n.ids n.started)
    let next := { n.setNode peer action.node with
      started := if action.usedId then n.started + 1 else n.started }
    action.offered.foldl (route directory) next

/-- Whether a peer can do something. -/
def busy (n : Network) (peer : PeerId) : Bool :=
  match n.nodes.get? peer with
  | none => false
  | some node => node.busy

/-- Let the first node in the queue do one command; one that has nothing left to do leaves the
queue. Nothing is left to do if the queue is empty. -/
def advance? (n : Network) : Option Network :=
  match n.queue with
  | [] => none
  | peer :: rest => if n.busy peer then some (n.act peer) else some { n with queue := rest }

/-- Let the nodes take turns until all are idle, for at most `limit` steps. -/
def run : Nat → Network → Network
  | 0, n => n
  | limit + 1, n =>
    match n.advance? with
    | some next => run limit next
    | none => n

/-- Take the events of a peer; a node that waited for room can go on. -/
def collect (n : Network) (peer : PeerId) : List Event × Network :=
  match n.nodes.get? peer with
  | none => ([], n)
  | some node =>
    let (events, next) := node.collect
    let n := n.setNode peer next
    (events, if node.waiting.isSome then n.enqueue peer else n)

/-- Let the network run and take the events of some peers whenever all nodes are idle, until these
peers have no more of them. At most `limit` rounds, each of at most `limit` steps. -/
def drain (steps : Nat) (peers : List PeerId) : Nat → Network →
    OrderedMap PeerId (List Event) × Network
  | 0, n => (.empty, n)
  | rounds + 1, n =>
    let idle := run steps n
    let (taken, next) := peers.foldl (fun (taken, n) peer =>
      let (events, n) := n.collect peer
      (if events.isEmpty then taken else taken.insert peer events, n)) (OrderedMap.empty, idle)
    if taken.entries.isEmpty then (.empty, next)
    else
      let (later, final) := drain steps peers rounds next
      (taken.mergeWith (· ++ ·) later, final)

/-- The nodes that have stopped. -/
def stopped (n : Network) : List PeerId :=
  (n.nodes.entries.filter fun entry => !entry.2.alive).map (·.1)

end Network

end TrustMesh
