import Mathlib.Data.List.Chain
import Mathlib.Data.List.Nodup
import Mathlib.Logic.Relation
import Mathlib.Tactic.Tauto
import TrustMesh.Mesh.Network

/-!
# Deployments

A deployment is a network before anything happens on it: peers are linked, then one
node is spawned for each member. Every linked peer is a member, and the members are
told apart by their identifiers without namespaces.

The module says which members a member reaches by links. It says nothing about what
nodes do.
-/

namespace TrustMesh

open Std

/-- No identifier of one node is an identifier of the other, namespaces aside. -/
def Identity.Apart (i j : Identity) : Prop :=
  ∀ p ∈ i.all, ∀ q ∈ j.all, p.unqualified ≠ q.unqualified

/-- A node that is to be spawned. -/
structure Member where
  identity : Identity
  oracle : Oracle
  settings : Settings

/-- The identifier that a member uses on routes and in graphs. -/
def Member.id (m : Member) : PeerId := m.identity.primary

/-- Links between peers and the nodes that are spawned once the links are there. -/
structure Deployment where
  links : List (PeerId × PeerId)
  members : List Member
  spawned : ∀ link ∈ links, ∀ peer ∈ [link.1, link.2], ∃ m ∈ members, m.id = peer
  apart : members.Pairwise fun m n => m.identity.Apart n.identity

namespace Deployment

/-- The network with all links and no node yet. -/
def wired (d : Deployment) (ids : Nat → MessageId) : Network :=
  d.links.foldl (fun n link => n.connect link.1 link.2) (.empty ids)

/-- The network of a deployment. `ids` are the identifiers for exchanges. -/
def assemble (d : Deployment) (ids : Nat → MessageId) : Except SettingsFault Network :=
  d.members.foldlM (fun n m => n.spawn m.identity m.oracle m.settings) (d.wired ids)

/-- Two peers are linked, in either direction. -/
def Linked (d : Deployment) (a b : PeerId) : Prop := (a, b) ∈ d.links ∨ (b, a) ∈ d.links

/-- A path of links joins two peers. -/
def Joined (d : Deployment) : PeerId → PeerId → Prop := Relation.ReflTransGen d.Linked

/-- The peers that a path of links joins to a peer, that peer among them. -/
def component (d : Deployment) (a : PeerId) : Set PeerId := { p | d.Joined a p }

/-- A simple path of links that begins at `origin`. -/
structure Trail (d : Deployment) (origin : PeerId) (path : List PeerId) : Prop where
  begins : path.head? = some origin
  linked : path.IsChain d.Linked
  simple : path.Nodup

/-- Two different links never get one edge identifier. -/
def EdgeIdsDiffer (d : Deployment) : Prop :=
  ∀ a b x y, d.Linked a b → d.Linked x y → EdgeId.between a b = EdgeId.between x y →
    (a = x ∧ b = y) ∨ (a = y ∧ b = x)

/-- Different links never get one edge identifier, with their ends read in some way. -/
def EdgeIdsDifferAs (d : Deployment) (read : PeerId → PeerId) : Prop :=
  ∀ a b x y, d.Linked a b → d.Linked x y →
    EdgeId.between (read a) (read b) = EdgeId.between (read x) (read y) →
      (a = x ∧ b = y) ∨ (a = y ∧ b = x)

/-- The peers that a peer is linked to. -/
def neighbours (d : Deployment) (peer : PeerId) : OrderedSet PeerId :=
  (d.wired fun _ => .zero).neighbours peer

/-- The directory of a peer as long as every node runs: frames to linked peers are accepted. -/
def directory (d : Deployment) (peer : PeerId) : Directory :=
  .ofPeers peer (d.neighbours peer) .empty

/-- What surrounds the engine of a member. -/
def surroundings (d : Deployment) (m : Member) : Surroundings := ⟨d.directory m.id, m.oracle⟩

/-! ## Links -/

theorem mem_neighbours_connect {n : Network} {a b p q : PeerId} :
    q ∈ (n.connect a b).neighbours p ↔
      q ∈ n.neighbours p ∨ (p = a ∧ q = b) ∨ (p = b ∧ q = a) := by
  simp only [Network.connect, Network.neighbours, OrderedMap.get?_alter]
  by_cases first : p = a
  · by_cases second : p = b
    · subst first; subst second
      simp only [if_true, Option.getD_some, OrderedSet.mem_insert, true_and]
      tauto
    · have differ : a ≠ b := fun same => second (first.trans same)
      subst first
      simp only [differ, if_true, if_false, Option.getD_some, OrderedSet.mem_insert, true_and,
        false_and, or_false]
      tauto
  · by_cases second : p = b
    · subst second
      simp only [first, if_true, if_false, Option.getD_some,
        OrderedSet.mem_insert, true_and, false_and, false_or]
      tauto
    · simp [first, second]

theorem mem_neighbours_wired {d : Deployment} {ids : Nat → MessageId} {p q : PeerId} :
    q ∈ (d.wired ids).neighbours p ↔ d.Linked p q := by
  have general : ∀ (links : List (PeerId × PeerId)) (n : Network),
      q ∈ (links.foldl (fun n link => n.connect link.1 link.2) n).neighbours p ↔
        q ∈ n.neighbours p ∨ (p, q) ∈ links ∨ (q, p) ∈ links := by
    intro links
    induction links with
    | nil => simp
    | cons link rest ih =>
      intro n
      rw [List.foldl_cons, ih, mem_neighbours_connect]
      obtain ⟨a, b⟩ := link
      simp only [List.mem_cons, Prod.mk.injEq]
      tauto
  rw [wired, general]
  simp [Network.empty, Network.neighbours, Linked]

@[simp] theorem mem_neighbours {d : Deployment} {p q : PeerId} :
    q ∈ d.neighbours p ↔ d.Linked p q := mem_neighbours_wired

theorem neighbours_wired (d : Deployment) (ids : Nat → MessageId) (p : PeerId) :
    (d.wired ids).neighbours p = d.neighbours p :=
  OrderedSet.ext_mem fun q => by rw [mem_neighbours_wired, mem_neighbours]

theorem Linked.symm {d : Deployment} {a b : PeerId} (linked : d.Linked a b) : d.Linked b a :=
  Or.symm linked

/-- A linked peer is a member. -/
theorem Linked.member {d : Deployment} {a b : PeerId} (linked : d.Linked a b) :
    ∃ m ∈ d.members, m.id = b := by
  rcases linked with there | there
  · exact d.spawned _ there b (by simp)
  · exact d.spawned _ there b (by simp)

/-! ## Members -/

/-- Two members are one, or they are told apart by their identifiers. -/
theorem eq_or_apart {d : Deployment} {m n : Member} (here : m ∈ d.members)
    (there : n ∈ d.members) : m = n ∨ m.identity.Apart n.identity := by
  by_cases same : m = n
  · exact .inl same
  · have symmetric : Std.Symm fun m n : Member => m.identity.Apart n.identity :=
      ⟨fun _ _ apart p own q other => (apart q other p own).symm⟩
    exact .inr (d.apart.forall here there same)

theorem contains_of_mem {i : Identity} {p : PeerId} (named : p ∈ i.all) : i.contains p = true :=
  List.any_eq_true.2 ⟨p, named, by simp⟩

/-- An identifier of a member is an own identifier for that member alone. -/
theorem contains_iff {d : Deployment} {m n : Member} {p : PeerId} (here : m ∈ d.members)
    (there : n ∈ d.members) (named : n.identity.contains p = true) :
    m.identity.contains p = true ↔ m = n := by
  constructor
  · intro own
    have unqualified : ∀ i : Identity, i.contains p = true →
        ∃ q ∈ i.all, q.unqualified = p.unqualified := by
      intro i contains
      obtain ⟨q, mem, same⟩ := List.any_eq_true.1 contains
      rcases Bool.or_eq_true_iff.1 same with equal | equal
      · exact ⟨q, mem, congrArg _ (of_decide_eq_true equal)⟩
      · exact ⟨q, mem, of_decide_eq_true equal⟩
    obtain ⟨q, mem, same⟩ := unqualified _ own
    obtain ⟨r, mem', same'⟩ := unqualified _ named
    exact (eq_or_apart here there).resolve_right fun apart =>
      apart q mem r mem' (same.trans same'.symm)
  · rintro rfl
    exact named

/-- Members with one identifier are one. -/
theorem eq_of_id_eq {d : Deployment} {m n : Member} (here : m ∈ d.members)
    (there : n ∈ d.members) (same : m.id = n.id) : m = n := by
  rcases eq_or_apart here there with equal | apart
  · exact equal
  · exact absurd (congrArg PeerId.unqualified same)
      (apart m.id (by simp [Identity.all, Member.id]) n.id (by simp [Identity.all, Member.id]))

theorem contains_id_iff {d : Deployment} {m n : Member} (here : m ∈ d.members)
    (there : n ∈ d.members) : m.identity.contains n.id = true ↔ n.id = m.id := by
  rw [contains_iff here there (contains_of_mem (by simp [Identity.all, Member.id]))]
  constructor
  · rintro rfl
    rfl
  · exact fun same => eq_of_id_eq here there same.symm

/-- Of the linked peers, only its own identifier is an own identifier of a member. -/
theorem contains_linked_iff {d : Deployment} {m : Member} {p q : PeerId} (here : m ∈ d.members)
    (linked : d.Linked p q) : m.identity.contains q = true ↔ q = m.id := by
  obtain ⟨n, there, rfl⟩ := linked.member
  exact contains_id_iff here there

/-- A joined peer is a member if the peer it is joined to is one. -/
theorem Joined.member {d : Deployment} {a b : PeerId} (joined : d.Joined a b)
    (known : ∃ m ∈ d.members, m.id = a) : ∃ m ∈ d.members, m.id = b := by
  cases joined with
  | refl => exact known
  | tail _ linked => exact linked.member

/-! ## Simple paths -/

theorem Trail.singleton (d : Deployment) (origin : PeerId) : d.Trail origin [origin] :=
  ⟨rfl, .singleton _, List.nodup_singleton _⟩

/-- A simple path goes on over links to peers that are not on it. -/
theorem trail_concat_iff {d : Deployment} {origin near far : PeerId} {route : List PeerId} :
    d.Trail origin (route ++ [near] ++ [far]) ↔
      d.Trail origin (route ++ [near]) ∧ d.Linked near far ∧ far ∉ route ++ [near] := by
  have first : (route ++ [near] ++ [far]).head? = (route ++ [near]).head? := by
    cases route <;> rfl
  constructor
  · rintro ⟨begins, linked, simple⟩
    obtain ⟨front, -, link⟩ := List.isChain_append.1 linked
    obtain ⟨distinct, -, apart⟩ := List.nodup_append.1 simple
    refine ⟨⟨first ▸ begins, front, distinct⟩, link near (by simp) far rfl, fun mem => ?_⟩
    exact apart far mem far (by simp) rfl
  · rintro ⟨⟨begins, linked, simple⟩, link, onward⟩
    refine ⟨first ▸ begins, List.isChain_append.2 ⟨linked, .singleton _, ?_⟩,
      List.nodup_append.2 ⟨simple, List.nodup_singleton _, ?_⟩⟩
    · intro x last y next
      rw [List.getLast?_concat] at last
      cases last
      cases next
      exact link
    · rintro x mem y last rfl
      cases List.mem_singleton.1 last
      exact onward mem

theorem Trail.upTo {d : Deployment} {origin near : PeerId} {front rest : List PeerId}
    (trail : d.Trail origin (front ++ near :: rest)) : d.Trail origin (front ++ [near]) := by
  obtain ⟨begins, linked, simple⟩ := trail
  have whole : front ++ near :: rest = front ++ [near] ++ rest := by simp
  rw [whole] at begins linked simple
  refine ⟨?_, (List.isChain_append.1 linked).1, (List.nodup_append.1 simple).1⟩
  cases front with
  | nil => exact begins
  | cons head tail => exact begins

/-- A simple path leads to every peer that is joined to the origin. -/
theorem Joined.exists_trail {d : Deployment} {origin p : PeerId} (joined : d.Joined origin p) :
    ∃ route, d.Trail origin (route ++ [p]) := by
  induction joined with
  | refl => exact ⟨[], .singleton d origin⟩
  | @tail x y _ linked ih =>
    obtain ⟨route, trail⟩ := ih
    by_cases passed : y ∈ route ++ [x]
    · obtain ⟨front, rest, whole⟩ := List.append_of_mem passed
      rw [whole] at trail
      exact ⟨front, trail.upTo⟩
    · exact ⟨route ++ [x], trail_concat_iff.2 ⟨trail, linked, passed⟩⟩

/-- Every peer of a simple path is joined to its origin. -/
theorem Trail.joined {d : Deployment} {origin : PeerId} {path : List PeerId}
    (trail : d.Trail origin path) : ∀ q ∈ path, d.Joined origin q := by
  obtain ⟨begins, linked, -⟩ := trail
  induction path generalizing origin with
  | nil => simp
  | cons head rest ih =>
    cases begins
    intro q mem
    rcases List.mem_cons.1 mem with rfl | mem
    · exact .refl
    · cases rest with
      | nil => cases mem
      | cons next rest =>
        obtain ⟨first, linked⟩ := List.isChain_cons_cons.1 linked
        exact .head first (ih rfl linked q mem)

/-! ## Directories -/

theorem resolve_directory {d : Deployment} {p q : PeerId} :
    (d.directory p).resolve q = if q ∈ d.neighbours p then some ⟨p, q⟩ else none := rfl

theorem resolve_of_linked {d : Deployment} {p q : PeerId} (linked : d.Linked p q) :
    (d.directory p).resolve q = some ⟨p, q⟩ := by
  rw [resolve_directory, if_pos (mem_neighbours.2 linked)]

theorem resolve_eq_some {d : Deployment} {p q : PeerId} {link : Link}
    (found : (d.directory p).resolve q = some link) : link = ⟨p, q⟩ ∧ d.Linked p q := by
  rw [resolve_directory] at found
  split at found
  · rename_i mem
    exact ⟨(Option.some.inj found).symm, mem_neighbours.1 mem⟩
  · cases found

@[simp] theorem mem_connected {d : Deployment} {p q : PeerId} :
    q ∈ (d.directory p).connected ↔ d.Linked p q := mem_neighbours

theorem nodup_connected (d : Deployment) (p : PeerId) : (d.directory p).connected.Nodup := by
  refine (d.neighbours p).increasing.imp fun {a b} less => ?_
  rintro rfl
  simp at less

/-- A frame to a linked peer is accepted. -/
theorem accepts_of_linked {d : Deployment} {p : PeerId} {link : Link} {frame : Frame}
    (linked : d.Linked p link.far) : (d.directory p).accepts link frame = true := by
  have mem : link.far ∈ d.neighbours p := mem_neighbours.2 linked
  simp [directory, Directory.accepts, Directory.ofPeers, mem]

end Deployment

end TrustMesh
