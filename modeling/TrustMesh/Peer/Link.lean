import TrustMesh.Peer.Identity

/-!
# Channels between peers

A link is one channel seen from one of its ends. A `Directory` is what a node knows
of its direct peers: who is connected, over which channel a peer is reached, and what
becomes of a frame that is queued on a channel.
-/

namespace TrustMesh

/-- The bytes of an encoded message. -/
abbrev Frame := List UInt8

/-- A channel between the local node, under the identifier it uses there, and a remote peer. -/
structure Link where
  near : PeerId
  far : PeerId
deriving DecidableEq

namespace Link

/-- The same channel seen from its other end. -/
def reversed (l : Link) : Link := ⟨l.far, l.near⟩

/-- Both ends of the channel. -/
def describe (l : Link) : String := s!"{l.near.text}<->{l.far.text}"

/-- The link as a JSON value. -/
def toJson (l : Link) : Json :=
  .object [("local", .text l.near.text), ("remote", .text l.far.text)]

end Link

/-- Why a frame was not queued. -/
inductive SendFailure where
  | unreachable (peer : PeerId)
  | refused (link : Link) (reason : String)
deriving DecidableEq

/-- The wording of a send failure. -/
def SendFailure.message : SendFailure → String
  | .unreachable peer => s!"peer unreachable: {peer.text}"
  | .refused link reason => s!"failed to send frame over {link.describe}: {reason}"

/-- The direct peers of a node: who is connected, the channel to a peer, and what becomes of a frame
queued on a channel. -/
structure Directory where
  connected : List PeerId
  resolve : PeerId → Option Link
  send : Link → Frame → Except SendFailure Unit

namespace Directory

/-- Whether a frame queued on a channel is accepted. -/
def accepts (d : Directory) (link : Link) (frame : Frame) : Bool :=
  match d.send link frame with
  | .ok _ => true
  | .error _ => false

/-- The directory of a node with a fixed set of peers, each known by exactly its identifier; sends
to the peers in `failing` are refused. -/
def ofPeers (near : PeerId) (peers failing : OrderedSet PeerId) : Directory where
  connected := peers.toList
  resolve peer := if peer ∈ peers then some ⟨near, peer⟩ else none
  send link _ :=
    if link.far ∉ peers then .error (.unreachable link.far)
    else if link.far ∈ failing then .error (.refused link "scripted send failure")
    else .ok ()

end Directory

end TrustMesh
