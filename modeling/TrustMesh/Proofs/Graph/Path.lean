import TrustMesh.Proofs.Collection.OrderedMap
import TrustMesh.Proofs.Graph.View
import TrustMesh.Relay.Engine

/-!
# Graphs of paths

The links of a path are added one after the other, and the node at its beginning sees
itself as `me`. What that node sees is the path and nothing else
(`Graph.nodes_localized_addPath`, `Graph.edges_localized_addPath`), as long as no two links
get one edge identifier.

Identifiers of edges are digests, so that they differ is assumed of the links of the path
and of the same links as the node sees them.
-/

namespace TrustMesh

open Std

/-- The edges along a path. -/
def Edge.along (label : String) : List PeerId → List Edge
  | a :: b :: rest => .between a b label :: along label (b :: rest)
  | _ => []

/-- The node of a peer that carries one label. -/
def Node.labelled (peer : PeerId) (name label : String) : Node := ⟨peer, name, .singleton label⟩

/-- A graph shows the way from the local node along a route and nothing else: the local node and the
peers of the route, each with one label, and one edge for each step. -/
structure Graph.Retraces (g : Graph) (settings : Settings) (route : List PeerId) : Prop where
  nodes : g.nodes.entries.Perm
    ((.me, .labelled .me settings.selfLabel settings.linkLabel) ::
      route.map fun p => (p, .labelled p p.text settings.linkLabel))
  edges : g.edges.entries.Perm
    ((Edge.along settings.linkLabel (.me :: route)).map fun e => (e.id, e))

theorem Node.addLabels_addLabels (n : Node) (labels : List String) :
    (n.addLabels labels).addLabels labels = n.addLabels labels :=
  congrArg (Node.mk n.id n.name) (OrderedSet.insertAll_insertAll ..)

namespace Graph

variable {g : Graph} {p q : PeerId} {label : String}

/-! ## Adding a path -/

theorem node?_observe {a b : PeerId} : (g.observe (.ofLink ⟨a, b⟩ label)).node? p =
    if p = a ∨ p = b then some (((g.node? p).getD (.plain p)).addLabels [label]) else g.node? p := by
  have nodes : (g.observe (.ofLink ⟨a, b⟩ label)).node? p =
    ((g.addLabels b [label]).addLabels a [label]).node? p := rfl
  rw [nodes, node?_addLabels, node?_addLabels]
  by_cases first : p = a
  · by_cases second : p = b
    · simp [← first, ← second, Node.addLabels_addLabels]
    · simp [first, first ▸ second]
  · by_cases second : p = b
    · simp [second, second ▸ first]
    · simp [first, second]

/-- A path labels its peers and leaves all others as they are. -/
theorem node?_addPath {a b : PeerId} {rest : List PeerId} :
    (Engine.addPath label g (a :: b :: rest)).node? p =
      if p ∈ a :: b :: rest then some (((g.node? p).getD (.plain p)).addLabels [label])
      else g.node? p := by
  induction rest generalizing a b g with
  | nil =>
    rw [Engine.addPath, Engine.addPath.eq_2 _ _ _ (by simp), node?_observe]
    simp
  | cons c rest ih =>
    rw [Engine.addPath, ih, node?_observe]
    by_cases first : p = a
    · simp [first, Node.addLabels_addLabels]
    · by_cases second : p = b
      · simp [second, Node.addLabels_addLabels]
      · simp [first, second]

/-- A path adds its edges one after the other. -/
theorem edges_addPath (label : String) (g : Graph) (path : List PeerId) :
    (Engine.addPath label g path).edges =
      (Edge.along label path).foldl (fun edges e => edges.insertNew e.id e) g.edges := by
  fun_induction Engine.addPath label g path with
  | case1 g a b rest ih => exact ih
  | case2 g path short => rw [Edge.along.eq_2 _ _ short, List.foldl_nil]

theorem Built.addPath {path : List PeerId} (built : g.Built) :
    (Engine.addPath label g path).Built := by
  fun_induction Engine.addPath label g path with
  | case1 g a b rest ih => exact ih (built.observe _)
  | case2 => exact built

/-- A path that is added to the node of one of its peers is all there is. -/
theorem node?_addPath_single {path : List PeerId} {target : PeerId} (there : target ∈ path)
    (long : 2 ≤ path.length) : (Engine.addPath label (.single target []) path).node? p =
      if p ∈ path then some (.labelled p p.text label) else none := by
  obtain ⟨a, b, rest, rfl⟩ : ∃ a b rest, path = a :: b :: rest := by
    match path, long with
    | a :: b :: rest, _ => exact ⟨a, b, rest, rfl⟩
  have bare : ∀ p, (((single target []).node? p).getD (.plain p)) = .plain p := by
    intro p
    rw [single, node?_addLabels]
    by_cases here : p = target
    · rw [if_pos here]
      rfl
    · rw [if_neg here]
      rfl
  rw [node?_addPath, bare]
  by_cases on : p ∈ a :: b :: rest
  · rw [if_pos on, if_pos on]
    rfl
  · have away : p ≠ target := fun same => on (same ▸ there)
    rw [if_neg on, if_neg on, single, node?_addLabels, if_neg away]
    rfl

/-! ## What a node sees of a path -/

variable {identity : Identity} {selfLabel : String}

/-- A node sees the edges along a path as the edges along the path that it sees. -/
theorem localize_along {path : List PeerId} (apart : (path.map identity.localize).IsChain (· ≠ ·)) :
    (Edge.along label path).filterMap (localizeEdge? identity) =
      Edge.along label (path.map identity.localize) := by
  fun_induction Edge.along label path with
  | case1 a b rest ih =>
    obtain ⟨differ, apart⟩ := List.isChain_cons_cons.1 apart
    have first : localizeEdge? identity (.between a b label) =
      some (.between (identity.localize a) (identity.localize b) label) := if_neg differ
    rw [List.filterMap_cons, first, ih apart]
    rfl
  | case2 path short =>
    rw [Edge.along.eq_2, List.filterMap_nil]
    intro a b rest whole
    match path, whole with
    | a :: b :: rest, _ => exact short a b rest rfl

theorem sound_addPath_single {target : PeerId} {path : List PeerId} :
    (Engine.addPath label (.single target []) path).Sound :=
  (Built.addPath (.addLabels target [] .empty)).sound

section Paths

variable {origin target : PeerId} {route : List PeerId}

theorem two_le_length (there : target ∈ route) : 2 ≤ (origin :: route).length :=
  Nat.succ_le_succ (List.length_pos_of_mem there)

/-- A node that reads itself alone as `me` sees a path from itself as one from `me`. -/
theorem map_localize (own : identity.contains origin = true)
    (foreign : ∀ p ∈ route, identity.contains p = false) :
    (origin :: route).map identity.localize = .me :: route := by
  have others : ∀ p ∈ route, identity.localize p = p := fun p there =>
    Identity.localize_of_foreign (foreign p there)
  rw [List.map_cons, Identity.localize_of_own own, List.map_congr_left others, List.map_id']

/-- The node where a path begins carries the label of the path, as the node sees it. -/
theorem selfNode_addPath (own : identity.contains origin = true) (there : target ∈ route) :
    (Engine.addPath label (.single target []) (origin :: route)).selfNode identity selfLabel =
      .labelled .me selfLabel label := by
  have nodes : ∀ p, (Engine.addPath label (.single target []) (origin :: route)).node? p = _ :=
    fun p => node?_addPath_single (List.mem_cons_of_mem origin there) (two_le_length there)
  have labels : (Engine.addPath label (.single target []) (origin :: route)).ownLabels identity =
      .singleton label := by
    refine OrderedSet.ext_mem fun other => (mem_ownLabels sound_addPath_single).trans ?_
    rw [OrderedSet.mem_singleton]
    constructor
    · rintro ⟨p, n, -, found, labels⟩
      rw [nodes] at found
      split at found
      · cases found
        exact OrderedSet.mem_singleton.1 labels
      · cases found
    · rintro rfl
      exact ⟨origin, _, own, (nodes origin).trans (if_pos (List.mem_cons_self ..)),
        OrderedSet.mem_singleton.2 rfl⟩
  rw [selfNode, labels]
  rfl

/-- The node where a path begins sees itself and the peers of the path. -/
theorem nodes_localized_addPath (own : identity.contains origin = true)
    (foreign : ∀ p ∈ route, identity.contains p = false) (plain : .me ∉ route)
    (simple : route.Nodup) (there : target ∈ route) :
    ((Engine.addPath label (.single target []) (origin :: route)).localized identity
      selfLabel).nodes.entries.Perm
      ((.me, .labelled .me selfLabel label) :: route.map fun p => (p, .labelled p p.text label)) := by
  have away : origin ∉ route := fun mem => by
    rw [foreign origin mem] at own
    cases own
  refine OrderedMap.entries_perm ?_ fun p n => ?_
  · simpa [Function.comp_def] using ⟨plain, simple⟩
  · change node? _ p = some n ↔ _
    rw [node?_localized sound_addPath_single, selfNode_addPath own there,
      node?_addPath_single (List.mem_cons_of_mem origin there) (two_le_length there)]
    by_cases self : p = .me
    · subst self
      simp [plain, eq_comm]
    · by_cases passed : p ∈ route
      · simp [self, passed, foreign p passed, eq_comm]
      · by_cases here : p = origin
        · simp [here, own, here ▸ self, away]
        · simp [self, passed, here]

/-- The node where a path begins sees the edges of the path. -/
theorem edges_localized_addPath (own : identity.contains origin = true)
    (foreign : ∀ p ∈ route, identity.contains p = false) (plain : .me ∉ route)
    (simple : route.Nodup)
    (differ : ((Edge.along label (origin :: route)).map Edge.id).Nodup)
    (differ' : ((Edge.along label (.me :: route)).map Edge.id).Nodup) :
    ((Engine.addPath label (.single target []) (origin :: route)).localized identity
      selfLabel).edges.entries.Perm
      ((Edge.along label (.me :: route)).map fun e => (e.id, e)) := by
  have view := map_localize own foreign
  have apart : ((origin :: route).map identity.localize).IsChain (· ≠ ·) := by
    rw [view]
    exact List.Pairwise.isChain (List.nodup_cons.2 ⟨plain, simple⟩)
  have values : (Engine.addPath label (.single target []) (origin :: route)).edges.values.Perm
      (Edge.along label (origin :: route)) := by
    have bare : (single target []).edges = .empty := rfl
    rw [OrderedMap.values, edges_addPath, bare]
    simpa [Function.comp_def] using (OrderedMap.entries_foldl_insertNew Edge.id differ).map Prod.snd
  have seen := edges_localized identity selfLabel values
  rw [localize_along apart, view] at seen
  exact seen differ'

end Paths

end Graph

end TrustMesh
