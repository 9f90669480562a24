import TrustMesh.Framework.Samples
import TrustMesh.Main
import TrustMesh.Proofs.Mesh.Run
import TrustMesh.Proofs.Collection.Recency
import TrustMesh.Proofs.Relay.Engine
import TrustMesh.Proofs.Relay.ReturnPath
import TrustMesh.Proofs.Relay.Treatment
import TrustMesh.Proofs.Relay.Passing
import TrustMesh.Proofs.Relay.Discipline
import TrustMesh.Proofs.Relay.Homecoming
import TrustMesh.Proofs.Relay.Recipients
import TrustMesh.Proofs.Relay.Drops
import TrustMesh.Proofs.Relay.Footprint
import TrustMesh.Proofs.Relay.Unanswered
import TrustMesh.Proofs.Relay.Refusals
import TrustMesh.Proofs.Mesh.Scene
import TrustMesh.Proofs.Mesh.Reflection
import TrustMesh.Proofs.Mesh.Flood
import TrustMesh.Proofs.Mesh.Ledger
import TrustMesh.Proofs.Mesh.Legibility
import TrustMesh.Proofs.Mesh.Inquiry
import TrustMesh.Proofs.Mesh.Frontier
import TrustMesh.Proofs.Mesh.Trace
import TrustMesh.Proofs.Graph.Absorb
import TrustMesh.Proofs.Mesh.Compliance
import TrustMesh.Proofs.Mesh.WorkingGraph
import TrustMesh.Proofs.Mesh.ComplianceReach
import TrustMesh.Proofs.Mesh.Gossip
import TrustMesh.Proofs.Json.Numeral
import TrustMesh.Proofs.Json.Reading
import TrustMesh.Proofs.Graph.Codec
import TrustMesh.Proofs.Message.Codec
import TrustMesh.Proofs.Collection.OrderedMap
import TrustMesh.Proofs.Json.Fidelity
import TrustMesh.Proofs.Json.Record
import TrustMesh.Proofs.Framework.Codec
import TrustMesh.Proofs.Mesh.Ring
import TrustMesh.Proofs.Mesh.Course
import TrustMesh.Proofs.Mesh.Accounting
import TrustMesh.Proofs.Mesh.QueryFlood
import TrustMesh.Proofs.Graph.Building
import TrustMesh.Proofs.Message.RoundTrip
import TrustMesh.Proofs.Mesh.GossipFlood
import TrustMesh.Proofs.Mesh.GossipCircle
import TrustMesh.Proofs.Graph.Path
import TrustMesh.Proofs.Mesh.Discovery
import TrustMesh.Proofs.Relay.Forwarding
import TrustMesh.Proofs.Relay.Journal
import TrustMesh.Proofs.Relay.Telling
import TrustMesh.Proofs.Relay.Origination
import TrustMesh.Proofs.Relay.Sightings
import TrustMesh.Proofs.Relay.Queries
import TrustMesh.Proofs.Json.Outline
import TrustMesh.Proofs.Framework.Outline
import TrustMesh.Proofs.Message.Relaying
import TrustMesh.Proofs.Json.Canonical
import TrustMesh.Proofs.Framework.Relaying
import TrustMesh.Proofs.Framework.Survival
import TrustMesh.Proofs.Framework.Meaning
import TrustMesh.Proofs.Mesh.Genuine
import TrustMesh.Proofs.Mesh.Service
import TrustMesh.Proofs.Relay.Recall
import TrustMesh.Proofs.Graph.Growth
import TrustMesh.Proofs.Graph.WrittenForm
import TrustMesh.Proofs.Graph.EdgeId
import TrustMesh.Proofs.Graph.View
import TrustMesh.Proofs.Framework.Monotone
import TrustMesh.Proofs.Framework.Reference
import TrustMesh.Proofs.Framework.Namespaces
import TrustMesh.Proofs.Json.Renumbering
import TrustMesh.Proofs.Framework.Renumbering
import TrustMesh.Proofs.Relay.Acceptance
import TrustMesh.Proofs.Framework.Endurance
import TrustMesh.Proofs.Mesh.Draining
import TrustMesh.Proofs.Mesh.Likeness
import TrustMesh.Proofs.Mesh.LastWord
import TrustMesh.Proofs.Mesh.Report
import TrustMesh.Proofs.Tool.Topology
import TrustMesh.Proofs.Tool.Simulate
