import TrustMesh.Peer.Identity
import TrustMesh.Relay.Settings

/-!
# Why a relay fails
-/

namespace TrustMesh

/-- Why a relay fails: a message cannot be encoded, a frame cannot be decoded, the settings cannot
be used, or a node has stopped. -/
inductive RelayFault where
  | encoding (reason : String)
  | malformedFrame (reason : String)
  | invalidSettings (reason : String)
  | nodeStopped (node : PeerId)
deriving DecidableEq

/-- The wording of a fault. -/
def RelayFault.message : RelayFault → String
  | .encoding reason => s!"failed to encode envelope: {reason}"
  | .malformedFrame reason => s!"malformed frame: {reason}"
  | .invalidSettings reason => s!"invalid relay configuration: {reason}"
  | .nodeStopped node => s!"relay node {node.text} is no longer running"

/-- A fault of the settings as a fault of the relay. -/
def SettingsFault.asRelayFault (fault : SettingsFault) : RelayFault :=
  .invalidSettings fault.reason

end TrustMesh
