import TrustMesh.Proofs.Collection.OrderedMap
import TrustMesh.Proofs.Graph.Absorb
import TrustMesh.Proofs.Mesh.Reflection
import TrustMesh.Tool.Topology

/-!
# Topologies as deployments

The population of a topology holds a node for every peer that a link mentions, each under its
own identifier. So a topology whose nodes are told apart by their identifiers is a deployment,
and its network is the one that the deployment is assembled to (`network_eq_ok`).
-/

namespace TrustMesh

open Std

instance (i j : Identity) : Decidable (i.Apart j) :=
  inferInstanceAs (Decidable (∀ p ∈ i.all, ∀ q ∈ j.all, p.unqualified ≠ q.unqualified))

namespace Topology

variable {t : Topology} {here : LocalNode} {settings : Settings} {ids : Nat → MessageId}
  {id p q : PeerId} {node : DeclaredNode} {n : Network}

/-- Two peers are linked, in either direction. -/
def Linked (t : Topology) (p q : PeerId) : Prop := (p, q) ∈ t.links ∨ (q, p) ∈ t.links

/-- A path of links joins two peers. -/
def Joined (t : Topology) : PeerId → PeerId → Prop := Relation.ReflTransGen t.Linked

/-- The nodes are told apart by their identifiers, namespaces aside. -/
def Distinct (t : Topology) (here : LocalNode) : Prop :=
  t.population.values.Pairwise fun m n => (m.identity here).Apart (n.identity here)

instance (t : Topology) (here : LocalNode) : Decidable (t.Distinct here) :=
  inferInstanceAs (Decidable (List.Pairwise _ _))

/-! ## The population -/

/-- What the population holds under an identifier: the last declaration of it, or else what a link
mentions. -/
theorem get?_population (t : Topology) (id : PeerId) : t.population.get? id =
    (t.declared.get? id).or (((t.links.flatMap fun link => [link.1, link.2]).map
      DeclaredNode.mentioned).find? (·.id = id)) := by
  have filed := OrderedMap.get?_foldl_insertNew DeclaredNode.id
    ((t.links.flatMap fun link => [link.1, link.2]).map DeclaredNode.mentioned) t.declared id
  rw [List.foldl_map] at filed
  exact filed

/-- Every node stands under its own identifier. -/
theorem id_of_population (found : t.population.get? id = some node) : node.id = id := by
  rw [get?_population, Option.or_eq_some_iff] at found
  rcases found with declared | ⟨-, mentioned⟩
  · have entry := OrderedMap.mem_entries_ofList (OrderedMap.get?_eq_some_iff.1 declared)
    obtain ⟨other, -, same⟩ := List.mem_map.1 entry
    cases same
    rfl
  · simpa using List.find?_some mentioned

/-- Both ends of a link are in the population. -/
theorem isSome_of_linked (linked : t.Linked p q) : (t.population.get? q).isSome := by
  have mentioned : q ∈ t.links.flatMap fun link => [link.1, link.2] := by
    rcases linked with there | there
    · exact List.mem_flatMap.2 ⟨_, there, by simp⟩
    · exact List.mem_flatMap.2 ⟨_, there, by simp⟩
  rw [get?_population, Option.isSome_or, Bool.or_eq_true]
  exact .inr (List.find?_isSome.2 ⟨.mentioned q, List.mem_map_of_mem mentioned, by
    simp [DeclaredNode.mentioned]⟩)

/-! ## The deployment -/

/-- The member that a declared node becomes. -/
def member (here : LocalNode) (settings : Settings) (node : DeclaredNode) : Member :=
  ⟨node.identity here, node.holdings.oracle, settings⟩

theorem id_member (here : LocalNode) (settings : Settings) (node : DeclaredNode) :
    (member here settings node).id = node.id := rfl

/-- The deployment of a topology. -/
def deployment (t : Topology) (here : LocalNode) (settings : Settings) (distinct : t.Distinct here) :
    Deployment where
  links := t.links
  members := t.population.values.map (member here settings)
  spawned := by
    intro link there peer ends
    have linked : t.Linked link.1 link.2 := .inl there
    have found : (t.population.get? peer).isSome := by
      rcases List.mem_cons.1 ends with rfl | last
      · exact isSome_of_linked linked.symm
      · exact List.mem_singleton.1 last ▸ isSome_of_linked linked
    obtain ⟨node, found⟩ := Option.isSome_iff_exists.1 found
    exact ⟨_, List.mem_map_of_mem (Graph.mem_values.2 ⟨peer, found⟩), id_of_population found⟩
  apart := List.pairwise_map.2 distinct

section Members

variable {distinct : t.Distinct here}

/-- A peer of the population is a member. -/
theorem member_mem (found : t.population.get? id = some node) :
    member here settings node ∈ (t.deployment here settings distinct).members :=
  List.mem_map_of_mem (Graph.mem_values.2 ⟨id, found⟩)

/-- A member is a peer of the population. -/
theorem exists_of_member {m : Member} (mem : m ∈ (t.deployment here settings distinct).members) :
    ∃ node, t.population.get? m.id = some node ∧ m = member here settings node := by
  obtain ⟨node, there, rfl⟩ := List.mem_map.1 mem
  obtain ⟨id, found⟩ := Graph.mem_values.1 there
  rw [id_member, id_of_population found]
  exact ⟨node, found, rfl⟩

end Members

/-- With usable settings every node is spawned. -/
theorem exists_assemble (usable : settings.fault? = none) (distinct : t.Distinct here)
    (ids : Nat → MessageId) :
    ∃ n, (t.deployment here settings distinct).assemble ids = .ok n := by
  have general : ∀ (nodes : List DeclaredNode) (n : Network), ∃ next,
      (nodes.map (member here settings)).foldlM
        (fun n m => n.spawn m.identity m.oracle m.settings) n = .ok next := by
    intro nodes
    induction nodes with
    | nil => exact fun n => ⟨n, rfl⟩
    | cons node rest ih =>
      intro n
      obtain ⟨next, spawned⟩ := ih { n.setNode node.id (.create ⟨node.identity here, settings,
          .empty settings.seenCapacity, .empty settings.seenCapacity⟩ node.holdings.oracle
            (n.neighbours node.id)) with registered := n.registered.insert node.id }
      refine ⟨next, ?_⟩
      rw [List.map_cons, List.foldlM_cons, ← spawned]
      simp only [member, Network.spawn, Engine.create, usable]
      rfl
  exact general _ _

/-- The network of a topology is that of its deployment, with its nodes in the queue. -/
theorem network_eq_ok (usable : settings.fault? = none) (distinct : t.Distinct here)
    (ids : Nat → MessageId) :
    ∃ n queue, (t.deployment here settings distinct).assemble ids = .ok n ∧
      t.network here settings ids = .ok { n with queue } := by
  obtain ⟨n, assembled⟩ := exists_assemble usable distinct ids
  have queued : ∀ (peers : List PeerId) (n : Network), ∃ queue,
      peers.foldl .enqueue n = { n with queue } := by
    intro peers
    induction peers with
    | nil => exact fun n => ⟨n.queue, rfl⟩
    | cons peer rest ih =>
      intro n
      obtain ⟨queue, same⟩ := ih (n.enqueue peer)
      refine ⟨queue, same.trans ?_⟩
      unfold Network.enqueue
      split <;> rfl
  obtain ⟨queue, same⟩ := queued t.population.keys n
  refine ⟨n, queue, assembled, ?_⟩
  rw [Deployment.assemble, deployment, List.foldlM_map] at assembled
  have enqueued := congrArg (·.map (t.population.keys.foldl .enqueue)) assembled
  refine Eq.trans ?_ (enqueued.trans (congrArg Except.ok same))
  rfl

end Topology

end TrustMesh
