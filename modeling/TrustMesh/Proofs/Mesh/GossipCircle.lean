import TrustMesh.Proofs.Graph.Building
import TrustMesh.Proofs.Mesh.Gossip
import TrustMesh.Proofs.Mesh.QueryFlood
import TrustMesh.Proofs.Message.RoundTrip

/-!
# Gossips that circle

Nodes that remember one exchange each forget the one gossip over the other. Two gossips
that follow each other along a walk of such nodes are new to every node that they come to,
so they go on for as long as the walk does (`Deployment.Walk.nonempty_endless`). Round a
ring it never ends: two gossips among three nodes are handled without end
(`nonempty_endless_triangle`).
-/

namespace TrustMesh

open Std

namespace Engine

variable {e : Engine} {s : Surroundings} {sender : PeerId} {m : Message} {members : List PeerId}
  {content : Json} {graph : Graph}

theorem sound_observeSender (sound : graph.Sound) (e : Engine) (directory : Directory)
    (sender : Option PeerId) : (e.observeSender directory graph sender).Sound := by
  cases sender with
  | some peer => exact ((sound.addLabels ..).addLabels ..).addEdge ..
  | none => exact sound.addLabels ..

/-- The copies of a gossip that go on carry a sound graph if it came with one. -/
theorem sound_of_new_gossip (s : Surroundings) (sender : PeerId)
    (body : m.body = .gossip members content graph) (sound : graph.Sound)
    (new : e.seen.contains m.id = false) :
    ∃ (onward : Message) (grown : Graph), onward.id = m.id ∧
      onward.body = .gossip members content grown ∧ grown.Sound ∧
      (e.handle s (some sender) m).offered = address s.directory
        (members.filter fun peer => !e.identity.contains peer && some peer ≠ some sender) onward := by
  obtain ⟨-, offered⟩ := handle_of_new_gossip s (some sender) body new
  exact ⟨⟨m.id, m.route ++ [e.primary], .gossip members content _⟩, _, rfl, rfl,
    sound_observeSender sound .., offered⟩

end Engine

namespace Deployment

variable {d : Deployment} {h : History} {s : Scene} {n : Network} {walk : Nat → Member} {i : Nat}
  {members : List PeerId} {content : Json} {id first second : MessageId}

/-- A walk over links that never turns back, without end, of members of a gossip that remember one
exchange each. -/
structure Walk (d : Deployment) (members : List PeerId) (walk : Nat → Member) : Prop where
  member : ∀ i, walk i ∈ d.members
  linked : ∀ i, d.Linked (walk i).id (walk (i + 1)).id
  moves : ∀ i, (walk (i + 1)).id ≠ (walk i).id
  forth : ∀ i, (walk (i + 2)).id ≠ (walk i).id
  meant : ∀ i, (walk i).id ∈ members
  forgets : ∀ i, (walk i).settings.seenCapacity = 1

/-- A copy of a gossip is in flight from one peer to another. -/
def Underway (s : Scene) (members : List PeerId) (content : Json) (id : MessageId)
    (near far : PeerId) : Prop :=
  ∃ k ∈ s.flight, k.near = near ∧ k.far = far ∧ k.message.id = id ∧
    ∃ graph : Graph, graph.Sound ∧ k.message.body = .gossip members content graph

/-- A gossip that is new to a node of the walk goes on to the next one. The node remembers this gossip
alone, and nothing else changes. -/
theorem Walk.pass (on : d.Walk members walk)
    (clear : ∀ graph : Graph, graph.Sound → (Body.gossip members content graph).Lucid)
    (reaches : d.Reaches h s) (reflects : d.Reflects n s)
    (underway : Underway s members content id (walk i).id (walk (i + 1)).id)
    (new : (s.engine (walk (i + 1)).id).seen.contains id = false) :
    ∃ deed next t, deed.command.isDelivery = true ∧ n.Runs [deed] next ∧
      d.Reaches (h ++ [deed]) t ∧ d.Reflects next t ∧
      Underway t members content id (walk (i + 1)).id (walk (i + 2)).id ∧
      (∀ k ∈ s.flight, k.message.id ≠ id → k ∈ t.flight) ∧
      (∀ peer, peer ≠ (walk (i + 1)).id → t.engine peer = s.engine peer) ∧
      ∀ probe, (t.engine (walk (i + 1)).id).seen.contains probe = decide (probe = id) := by
  obtain ⟨k, there, near, far, rfl, graph, sound, body⟩ := underway
  have mem := on.member (i + 1)
  have ledger := reaches.ledger
  obtain ⟨next, deed, others, taken, runs, delivers, advance, reflects⟩ :=
    reflects.exists_handle mem there far rfl
  obtain ⟨onward, grown, own, copies, gathered, offered⟩ :=
    Engine.sound_of_new_gossip (d.surroundings (walk (i + 1))) k.near body sound new
  refine ⟨deed, next, _, delivers, runs, .advance reaches advance, reflects, ?_, ?_, ?_, ?_⟩
  · have lucid : onward.body.Lucid := copies ▸ clear grown gathered
    have read : ∀ o ∈ ((s.engine (walk (i + 1)).id).handle (d.surroundings (walk (i + 1)))
        (some k.near) k.message).offered, Message.decode o.frame = .ok o.message := by
      intro o offer
      rw [offered] at offer
      rw [Dispatch.frame, (Engine.mem_address offer).1]
      exact lucid _ _
    have asked : (walk (i + 2)).id ∈ members.filter fun peer =>
        !(s.engine (walk (i + 1)).id).identity.contains peer && some peer ≠ some k.near := by
      refine List.mem_filter.2 ⟨on.meant _, ?_⟩
      have away : (walk (i + 2)).id ≠ k.near := near ▸ on.forth i
      simp [ledger.foreign mem (on.linked (i + 1)) (on.moves (i + 1)), away]
    have goes : ⟨(walk (i + 1)).id, (walk (i + 2)).id, onward⟩ ∈ packets _ :=
      mem_packets_address.2 ⟨asked, on.linked (i + 1), rfl⟩
    refine ⟨⟨(walk (i + 1)).id, (walk (i + 2)).id, onward⟩, ?_, rfl, rfl, own, grown, gathered, copies⟩
    rw [Scene.after, arrivals_eq_packets read, offered]
    exact Multiset.mem_add.2 (.inr goes)
  · intro other coming differ
    rw [taken] at coming
    rcases Multiset.mem_cons.1 coming with rfl | coming
    · exact absurd rfl differ
    · exact Multiset.mem_add.2 (.inl coming)
  · exact fun peer differ => Scene.engine_after_of_ne differ
  · intro probe
    obtain ⟨value, stored⟩ : ∃ value, ((s.engine (walk (i + 1)).id).handle
        (d.surroundings (walk (i + 1))) (some k.near) k.message).engine.seen.entries = _ :=
      Engine.handle_gossip_stores body
    rw [Scene.engine_after_self, SeenCache.contains, stored]
    exact Recency.contains_put_of_one
      ((ledger.seen _ mem).capacity.trans (on.forgets (i + 1)))

/-- Two gossips on their way to the same node: no node of the walk remembers the first. -/
def Together (d : Deployment) (members : List PeerId) (content : Json) (first second : MessageId)
    (walk : Nat → Member) (i : Nat) (n : Network) : Prop :=
  ∃ h s, d.Reaches h s ∧ d.Reflects n s ∧
    Underway s members content first (walk i).id (walk (i + 1)).id ∧
    Underway s members content second (walk i).id (walk (i + 1)).id ∧
    ∀ j, (s.engine (walk j).id).seen.contains first = false

/-- The first gossip is one node ahead of the second: the node between them remembers it alone. -/
def Apart (d : Deployment) (members : List PeerId) (content : Json) (first second : MessageId)
    (walk : Nat → Member) (i : Nat) (n : Network) : Prop :=
  ∃ h s, d.Reaches h s ∧ d.Reflects n s ∧
    Underway s members content first (walk (i + 1)).id (walk (i + 2)).id ∧
    Underway s members content second (walk i).id (walk (i + 1)).id ∧
    (s.engine (walk (i + 1)).id).seen.contains second = false ∧
    ∀ j, (walk j).id ≠ (walk (i + 1)).id →
      (s.engine (walk j).id).seen.contains first = false

section Walk

variable (on : d.Walk members walk) (differ : first ≠ second)
  (clear : ∀ graph : Graph, graph.Sound → (Body.gossip members content graph).Lucid)

include on differ clear

/-- The first of two gossips goes on. -/
theorem Together.goes (together : d.Together members content first second walk i n) :
    ∃ deed next, deed.command.isDelivery = true ∧ n.Runs [deed] next ∧
      d.Apart members content first second walk i next := by
  obtain ⟨h, s, reaches, reflects, ahead, behind, new⟩ := together
  obtain ⟨deed, next, t, delivers, runs, reaches, reflects, ahead, kept, same, alone⟩ :=
    on.pass clear reaches reflects ahead (new _)
  refine ⟨deed, next, delivers, runs, _, t, reaches, reflects, ahead, ?_, ?_, ?_⟩
  · obtain ⟨k, there, near, far, own, body⟩ := behind
    exact ⟨k, kept k there (own ▸ differ.symm), near, far, own, body⟩
  · simpa [alone] using differ.symm
  · intro j other
    rw [same _ other]
    exact new j

/-- The second of two gossips comes up with the first. -/
theorem Apart.goes (apart : d.Apart members content first second walk i n) :
    ∃ deed next, deed.command.isDelivery = true ∧ n.Runs [deed] next ∧
      d.Together members content first second walk (i + 1) next := by
  obtain ⟨h, s, reaches, reflects, ahead, behind, new, others⟩ := apart
  obtain ⟨deed, next, t, delivers, runs, reaches, reflects, behind, kept, same, alone⟩ :=
    on.pass clear reaches reflects behind new
  refine ⟨deed, next, delivers, runs, _, t, reaches, reflects, ?_, behind, fun j => ?_⟩
  · obtain ⟨k, there, near, far, own, body⟩ := ahead
    exact ⟨k, kept k there (own ▸ differ), near, far, own, body⟩
  · by_cases here : (walk j).id = (walk (i + 1)).id
    · simpa [here, alone] using differ
    · rw [same _ here]
      exact others j here

/-- Two gossips on their way to one node of the walk go on without end. -/
theorem Walk.nonempty_endless (together : d.Together members content first second walk i n) :
    Nonempty n.Endless := by
  refine Network.nonempty_endless (fun n => ∃ i,
    d.Together members content first second walk i n ∨
      d.Apart members content first second walk i n) ⟨i, .inl together⟩ ?_
  rintro n ⟨i, together | apart⟩
  · obtain ⟨deed, next, delivers, runs, apart⟩ := together.goes on differ clear
    exact ⟨deed, next, delivers, runs, i, .inr apart⟩
  · obtain ⟨deed, next, delivers, runs, together⟩ := apart.goes on differ clear
    exact ⟨deed, next, delivers, runs, i + 1, .inl together⟩

end Walk

/-! ## Three nodes in a ring -/

/-- Round the triangle whose nodes remember one exchange each. -/
def roundTriangle (i : Nat) : Member :=
  let name := match i % 3 with
    | 0 => "A"
    | 1 => "B"
    | _ => "C"
  { Member.plain ⟨name⟩ false with settings := { Settings.standard with seenCapacity := 1 } }

theorem walk_roundTriangle : (triangle 1).Walk [⟨"A"⟩, ⟨"B"⟩, ⟨"C"⟩] roundTriangle := by
  have turn : ∀ i, (i % 3 = 0 ∧ (i + 1) % 3 = 1 ∧ (i + 2) % 3 = 2) ∨
      (i % 3 = 1 ∧ (i + 1) % 3 = 2 ∧ (i + 2) % 3 = 0) ∨
      (i % 3 = 2 ∧ (i + 1) % 3 = 0 ∧ (i + 2) % 3 = 1) := by omega
  constructor <;> intro i <;> rcases turn i with ⟨here, next, last⟩ | ⟨here, next, last⟩ |
    ⟨here, next, last⟩ <;>
    simp [roundTriangle, triangle, Linked, Member.id, Member.plain, here, next, last]
  all_goals decide

/-- The copy of a gossip that the first node of the triangle sends to the second. -/
def newsPacket (id : MessageId) : Packet :=
  ⟨⟨"A"⟩, ⟨"B"⟩, ⟨id, [⟨"A"⟩], .gossip [⟨"A"⟩, ⟨"B"⟩, ⟨"C"⟩] .null (.single ⟨"A"⟩ ["P2P"])⟩⟩

/-- Two gossips in the triangle are handled without end. -/
theorem nonempty_endless_triangle :
    Nonempty ((triangle 1).session .ofNat [news, news] 2).2.Endless := by
  have runs := runs_session (triangle 1) .ofNat [news, news] 2 (by decide +kernel)
  have sent : (((triangle 1).session .ofNat [news, news] 2).2.nodes.get? ⟨"B"⟩).map
      (fun node => node.inbox.filterMap (Command.packet? ⟨"B"⟩)) =
        some [newsPacket (.ofNat 0), newsPacket (.ofNat 1)] := by decide +kernel
  have new : ∀ m ∈ (triangle 1).members,
      (((triangle 1).session .ofNat [news, news] 2).2.nodes.get? m.id).map
        (fun node => node.engine.seen.contains (.ofNat 0)) = some false := by decide +kernel
  obtain ⟨s, reaches, reflects⟩ := runs.reaches
  have clear : ∀ graph : Graph, graph.Sound →
      (Body.gossip [⟨"A"⟩, ⟨"B"⟩, ⟨"C"⟩] .null graph).Lucid := fun graph sound =>
    Body.lucid_gossip _ trivial sound trivial (by decide)
  have underway : ∀ id, newsPacket id ∈ s.flight →
      Underway s [⟨"A"⟩, ⟨"B"⟩, ⟨"C"⟩] .null id (roundTriangle 0).id (roundTriangle 1).id :=
    fun id there => ⟨_, there, rfl, rfl, rfl, _, Graph.sound_single .., rfl⟩
  have coming : ∀ k ∈ [newsPacket (.ofNat 0), newsPacket (.ofNat 1)], k ∈ s.flight := by
    obtain ⟨node, found, stands⟩ := reflects.node (roundTriangle 1) (walk_roundTriangle.member 1)
    have inbox := stands.inbox
    rw [show (roundTriangle 1).id = ⟨"B"⟩ from rfl] at found inbox
    have brought : node.inbox.filterMap (Command.packet? ⟨"B"⟩) =
        [newsPacket (.ofNat 0), newsPacket (.ofNat 1)] := by
      rw [found] at sent
      exact Option.some.inj sent
    rw [brought] at inbox
    exact fun k there => Multiset.mem_of_mem_filter (inbox ▸ Multiset.mem_coe.2 there)
  have unseen : ∀ j, (s.engine (roundTriangle j).id).seen.contains (.ofNat 0) = false := by
    intro j
    have mem := walk_roundTriangle.member j
    obtain ⟨node, found, stands⟩ := reflects.node (roundTriangle j) mem
    have unseen := new (roundTriangle j) mem
    rw [found] at unseen
    rw [← stands.engine]
    exact Option.some.inj unseen
  exact walk_roundTriangle.nonempty_endless (by decide) clear
    ⟨_, s, reaches, reflects, underway (.ofNat 0) (coming _ (by simp)),
      underway (.ofNat 1) (coming _ (by simp)), unseen⟩

/-- Gossips do not always end. -/
theorem gossip_floods_may_not_end :
    ¬ ∀ (d : Deployment) (ids : Nat → MessageId) (h : History) (n : Network), d.Runs ids h n →
      h.startedIds.Nodup →
      (∀ peer id exchange, h.Started peer id exchange → exchange.asks = false) →
      IsEmpty n.Endless := by
  intro ends
  have runs := runs_session (triangle 1) .ofNat [news, news] 2 (by decide +kernel)
  have distinct : ((triangle 1).session .ofNat [news, news] 2).1.startedIds.Nodup := by
    decide +kernel
  have all : ∀ deed ∈ ((triangle 1).session .ofNat [news, news] 2).1,
      deed.started?.all (!·.2.asks) = true := by decide +kernel
  obtain ⟨endless⟩ := nonempty_endless_triangle
  refine (ends _ _ _ _ runs distinct ?_).false endless
  rintro peer id exchange ⟨deed, there, -, began⟩
  have own := all deed there
  rw [began] at own
  simpa using own

end Deployment

end TrustMesh
