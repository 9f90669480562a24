import TrustMesh.Proofs.Mesh.Flood
import TrustMesh.Proofs.Mesh.Ledger

/-!
# Whom the engine of a member asks

Seen from the engine of a member, the peers of a route are its own or known by links, so
what it does with a request depends on the links and on the route alone. The peers to
which it spreads a message are the `Deployment.frontier` of the stop at which it is.
-/

namespace TrustMesh

open Std

namespace Deployment

variable {d : Deployment} {m : Member} {e : Engine}

/-- The neighbours of a stop that its path has not passed. -/
def frontier (d : Deployment) (s : Stop) : List PeerId :=
  (d.neighbours s.peer).toList.filter (· ∉ s.path)

theorem mem_frontier {s : Stop} {q : PeerId} :
    q ∈ d.frontier s ↔ d.Linked s.peer q ∧ q ∉ s.path := by
  rw [frontier, List.mem_filter, ← OrderedSet.mem_def, mem_neighbours]
  simp

theorem nodup_frontier (d : Deployment) (s : Stop) : (d.frontier s).Nodup :=
  (nodup_connected d s.peer).filter _

/-- Messages for linked peers are all offered. -/
theorem packets_address {peers : List PeerId} {message : Message} {near : PeerId}
    (linked : ∀ q ∈ peers, d.Linked near q) :
    packets (Engine.address (d.directory near) peers message) =
      ↑(peers.map fun q => (⟨near, q, message⟩ : Packet)) := by
  induction peers with
  | nil => rfl
  | cons q rest ih =>
    have found := resolve_of_linked (linked q (by simp))
    have later := ih fun r mem => linked r (List.mem_cons_of_mem _ mem)
    rw [Engine.address, List.filterMap_cons, found, Option.map_some, packets_cons, ← Engine.address,
      later]
    rfl

/-- The engine of a member spreads a message over the frontier. Excluding a peer of the route is no
restriction. -/
theorem floodTargets_eq_frontier (mem : m ∈ d.members) (serves : e.Serves m) {message : Message}
    {excluded : Option PeerId} {s : Stop} (here : s.peer = m.id)
    (path : ∀ q, q ∈ s.path ↔ q ∈ message.route ∨ q = m.id)
    (passed : ∀ q, excluded = some q → q ∈ message.route) :
    e.floodTargets (d.directory m.id) message excluded = d.frontier s := by
  rw [Engine.floodTargets, frontier, here]
  refine List.filter_congr fun q there => ?_
  have own : e.identity.contains q = true ↔ q = m.id := by
    rw [serves.identity]
    exact contains_linked_iff mem (mem_connected.1 there)
  have excluding : q ∉ message.route → some q ≠ excluded := fun unpassed same =>
    unpassed (passed q same.symm)
  rw [Bool.eq_iff_iff]
  simp only [Bool.and_eq_true, Bool.not_eq_true', Bool.eq_false_iff, ne_eq, own, decide_eq_true_eq,
    decide_not]
  rw [path]
  tauto

/-- A member that a route has not passed finds neither a loop nor itself on it. -/
theorem unpassed_of_trail {origin : Member} (first : origin ∈ d.members) (mem : m ∈ d.members)
    (serves : e.Serves m) {v : Visit} (here : v.peer = m.id) (trail : d.Trail origin.id v.path)
    {message : Message} (route : message.route = v.before.path) :
    (message.hasLoop || e.onRoute message) = false := by
  obtain ⟨before, -, onward⟩ := trail_concat_iff.1 trail
  have straight : message.hasLoop = false := by
    rw [Message.hasLoop, route, decide_eq_true (show v.before.path.Nodup from before.simple)]
    rfl
  have foreign : e.onRoute message = false := by
    rw [Engine.onRoute, route, List.any_eq_false]
    intro hop passed
    obtain ⟨n, known, rfl⟩ := (before.joined hop passed).member ⟨origin, first, rfl⟩
    rw [serves.identity, contains_id_iff mem known]
    rintro same
    exact onward (here ▸ same ▸ passed)
  rw [straight, foreign]
  rfl

end Deployment

end TrustMesh
