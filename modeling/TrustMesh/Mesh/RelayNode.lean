import TrustMesh.Relay.Engine
import TrustMesh.Relay.Fault

/-!
# Nodes

A node is an engine with an inbox. What it is told to do is put into the inbox and done
one after the other. The application reads the events of the node from a buffer of
bounded size; a node whose buffer is full waits with the next event and does nothing
until the buffer is emptied.

A command to start an exchange carries a ticket. The answer is filed under the ticket; a
ticket without an answer at a node that has stopped is one that was not served.
-/

namespace TrustMesh

/-- What a node is told to do. -/
inductive Command where
  | deliver (sender : Option PeerId) (frame : Frame)
  | start (ticket : Nat) (exchange : Exchange)
  | shutdown

/-- A node: its engine and oracle, the peers it is linked to, the commands it has not done, the
events in its buffer and the one that found the buffer full, whether it still runs, and the record
of the questions it asked and the answers it gave. -/
structure RelayNode where
  engine : Engine
  oracle : Oracle
  neighbours : OrderedSet PeerId
  inbox : List Command
  events : List Event
  waiting : Option Event
  alive : Bool
  asked : List Question
  answers : List (Nat × Started)

namespace RelayNode

/-- The node that has done nothing yet. -/
def create (engine : Engine) (oracle : Oracle) (neighbours : OrderedSet PeerId) : RelayNode :=
  ⟨engine, oracle, neighbours, [], [], none, true, [], []⟩

/-- The identifier of the node. -/
def id (n : RelayNode) : PeerId := n.engine.identity.primary

/-- Put a command into the inbox. A node that has stopped takes none. -/
def submit (n : RelayNode) (command : Command) : Except RelayFault RelayNode :=
  if n.alive then .ok { n with inbox := n.inbox ++ [command] } else .error (.nodeStopped n.id)

/-- Put an event into the buffer, or keep it until there is room. -/
def emit (n : RelayNode) (event : Event) : RelayNode :=
  if n.events.length < n.engine.settings.eventBuffer then { n with events := n.events ++ [event] }
  else { n with waiting := some event }

/-- Take all events from the buffer. An event that waited takes their place. -/
def collect (n : RelayNode) : List Event × RelayNode :=
  (n.events, { n with events := n.waiting.toList, waiting := none })

/-- Whether the node can do something. -/
def busy (n : RelayNode) : Bool := n.alive && n.waiting.isNone && !n.inbox.isEmpty

/-- The answer that was filed under a ticket. -/
def answer? (n : RelayNode) (ticket : Nat) : Option Started :=
  (n.answers.find? (·.1 = ticket)).map (·.2)

/-- What a node does at once: its new state, the messages it offers, the event it has for its
application, and whether it used the identifier it was given. -/
structure Action where
  node : RelayNode
  offered : List Dispatch
  event : Option Event
  usedId : Bool

/-- Do a command. `id` is the identifier for an exchange that is started. -/
def execute (n : RelayNode) (directory : Directory) (id : MessageId) : Command → Action
  | .shutdown => ⟨{ n with alive := false, inbox := [] }, [], none, false⟩
  | .deliver sender frame =>
    let step := n.engine.handleFrame ⟨directory, n.oracle⟩ sender frame
    let next := { n with engine := step.engine, asked := n.asked ++ step.asked }
    match step.result.event? with
    | some event => ⟨next.emit event, step.offered, some event, false⟩
    | none => ⟨next, step.offered, none, false⟩
  | .start ticket exchange =>
    let step := n.engine.start ⟨directory, n.oracle⟩ id exchange
    ⟨{ n with
        engine := step.engine
        asked := n.asked ++ step.asked
        answers := n.answers ++ [(ticket, step.result)] }, step.offered, none, true⟩

/-- Do the first command of the inbox, if there is one. -/
def act (n : RelayNode) (directory : Directory) (id : MessageId) : Action :=
  match n.inbox with
  | [] => ⟨n, [], none, false⟩
  | command :: rest => { n with inbox := rest }.execute directory id command

end RelayNode

end TrustMesh
