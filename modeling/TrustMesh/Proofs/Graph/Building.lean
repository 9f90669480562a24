import TrustMesh.Graph.Localized
import TrustMesh.Proofs.Graph.Absorb
import TrustMesh.Proofs.Graph.Codec

/-!
# Graphs that are built

However a graph is built, every node and every edge stands under its own identifier
(`Graph.Built.sound`). So it is read from its written form as it was, and it holds at most
one edge between two peers, which is found from either end (`Graph.Built.keyed`).
-/

namespace TrustMesh

open Std

namespace Graph

/-- A graph is built by additions from the empty one, as the view of a node of another graph, or from
a listing. -/
inductive Built : Graph → Prop where
  | empty : Built .empty
  | addLabels {g : Graph} (peer : PeerId) (labels : List String) :
    g.Built → (g.addLabels peer labels).Built
  | addEdge {g : Graph} (source target : PeerId) (label : String) :
    g.Built → (g.addEdge source target label).Built
  | observe {g : Graph} (o : Observation) : g.Built → (g.observe o).Built
  | absorb {g h : Graph} : g.Built → h.Built → (g.absorb h).Built
  | localized {g : Graph} (identity : Identity) (selfLabel : String) :
    g.Built → (g.localized identity selfLabel).Built
  | ofListing (listing : GraphListing) : (ofListing listing).Built

theorem sound_empty : empty.Sound :=
  ⟨fun _ _ found => (nomatch found), fun _ _ found => (nomatch found)⟩

/-- A change to the node of a peer that keeps whose node it is. -/
theorem Sound.alter {g : Graph} (sound : g.Sound) (peer : PeerId) {change : Option Node → Node}
    (whose : ∀ old : Node, old.id = peer → (change (some old)).id = peer)
    (fresh : (change none).id = peer) : Sound { g with nodes := g.nodes.alter peer change } := by
  refine ⟨fun p n found => ?_, sound.edge⟩
  rw [OrderedMap.get?_alter] at found
  split at found
  · rename_i own
    cases found
    subst own
    cases before : g.nodes.get? p with
    | none => exact fresh
    | some old => exact whose old (sound.node _ old before)
  · exact sound.node p n found

theorem Sound.addLabels {g : Graph} (sound : g.Sound) (peer : PeerId) (labels : List String) :
    (g.addLabels peer labels).Sound :=
  sound.alter peer (fun _ own => own) rfl

theorem Sound.rename {g : Graph} (sound : g.Sound) (peer : PeerId) (name : String) :
    (g.rename peer name).Sound :=
  sound.alter peer (fun _ own => own) rfl

theorem Sound.addEntry {g : Graph} (sound : g.Sound) (n : NodeEntry) : (g.addEntry n).Sound := by
  unfold Graph.addEntry
  split
  · exact (sound.addLabels ..).rename ..
  · exact sound.addLabels ..

theorem Sound.absorb {g h : Graph} (first : g.Sound) (second : h.Sound) : (g.absorb h).Sound := by
  constructor
  · intro p n found
    have merged := node?_absorb (g := g) (h := h) (p := p)
    rw [show (g.absorb h).node? p = some n from found] at merged
    cases old : g.node? p with
    | none =>
      rw [old] at merged
      exact second.node p n merged.symm
    | some own =>
      cases new : h.node? p with
      | none =>
        rw [old, new] at merged
        exact (congrArg Node.id (Option.some.inj merged)).trans (first.node p own old)
      | some other =>
        rw [old, new] at merged
        exact (congrArg Node.id (Option.some.inj merged)).trans (first.node p own old)
  · intro id e found
    rw [edges_absorb, Option.or_eq_some_iff] at found
    rcases found with own | ⟨-, other⟩
    · exact first.edge id e own
    · exact second.edge id e other

/-- Edges that stand for themselves stand under their own identifiers. -/
theorem edge_of_insertNew {edges : List Edge} {before : OrderedMap EdgeId Edge}
    (whole : ∀ e ∈ edges, e = .between e.source e.target e.label)
    (kept : ∀ id e, before.get? id = some e → e = .between e.source e.target e.label ∧ e.id = id) :
    ∀ id e, (edges.foldl (fun edges e => edges.insertNew e.id e) before).get? id = some e →
      e = .between e.source e.target e.label ∧ e.id = id := by
  induction edges generalizing before with
  | nil => exact kept
  | cons edge rest ih =>
    obtain ⟨own, whole⟩ := List.forall_mem_cons.1 whole
    refine ih whole fun id e found => ?_
    rw [OrderedMap.get?_insertNew] at found
    split at found
    · rename_i same
      subst same
      cases old : before.get? edge.id with
      | none =>
        rw [old] at found
        cases found
        exact ⟨own, rfl⟩
      | some earlier =>
        rw [old] at found
        cases found
        exact kept _ _ old
    · exact kept id e found

/-- The view of a node stands under the identifiers that the node sees. -/
theorem sound_localized (g : Graph) (identity : Identity) (selfLabel : String) :
    (g.localized identity selfLabel).Sound := by
  constructor
  · intro p n found
    rcases OrderedMap.mem_entries_insert (OrderedMap.get?_eq_some_iff.1 found) with same | mem
    · cases same
      rfl
    · obtain ⟨node, -, same⟩ := List.mem_map.1 (OrderedMap.mem_entries_ofList mem)
      cases same
      rfl
  · refine edge_of_insertNew (fun e there => ?_) fun _ _ found => (nomatch found)
    obtain ⟨original, -, seen⟩ := List.mem_filterMap.1 there
    dsimp only [localizeEdge?] at seen
    split at seen
    · cases seen
    · cases seen
      rfl

theorem sound_ofListing (listing : GraphListing) : (ofListing listing).Sound := by
  have nodes : ∀ (entries : List NodeEntry) (g : Graph), g.Sound → (entries.foldl addEntry g).Sound := by
    intro entries
    induction entries with
    | nil => exact fun _ sound => sound
    | cons n rest ih => exact fun g sound => ih _ (sound.addEntry n)
  have edges : ∀ (links : List LinkEntry) (g : Graph), g.Sound →
      (links.foldl (fun g link => g.addEdge link.source link.target link.label) g).Sound := by
    intro links
    induction links with
    | nil => exact fun _ sound => sound
    | cons link rest ih => exact fun g sound => ih _ (sound.addEdge ..)
  exact edges _ _ (nodes _ _ sound_empty)

/-- Every node and every edge of a graph that was built stands under its own identifier. -/
theorem Built.sound {g : Graph} (built : g.Built) : g.Sound := by
  induction built with
  | empty => exact sound_empty
  | addLabels peer labels _ sound => exact sound.addLabels peer labels
  | addEdge source target label _ sound => exact sound.addEdge source target label
  | observe o _ sound => exact ((sound.addLabels ..).addLabels ..).addEdge ..
  | absorb _ _ first second => exact first.absorb second
  | localized identity selfLabel _ _ => exact sound_localized _ identity selfLabel
  | ofListing listing => exact sound_ofListing listing

/-- A graph that was read was built, whatever was written. -/
theorem Built.of_decode {source : Source} {t : Term} {g : Graph}
    (decoded : decode source t = .ok g) : g.Built := by
  obtain ⟨listing, -, rfl⟩ := Except.eq_ok_of_map decoded
  exact .ofListing listing

/-- A graph that was read is sound. -/
theorem sound_of_decode {source : Source} {t : Term} {g : Graph} (decoded : decode source t = .ok g) :
    g.Sound :=
  (Built.of_decode decoded).sound

/-! ## At most one edge between two peers -/

theorem edge?_comm (g : Graph) (a b : PeerId) : g.edge? a b = g.edge? b a := by
  rw [edge?, edge?, EdgeId.between_comm]

/-- The identifier of an edge is that of the pair it joins, in either order. -/
theorem Sound.id_eq {g : Graph} (sound : g.Sound) {id : EdgeId} {e : Edge} {a b : PeerId}
    (found : g.edges.get? id = some e)
    (ends : (e.source = a ∧ e.target = b) ∨ (e.source = b ∧ e.target = a)) : id = .between a b := by
  obtain ⟨whole, own⟩ := sound.edge id e found
  have own : id = .between e.source e.target := own.symm.trans (congrArg Edge.id whole)
  rcases ends with ⟨rfl, rfl⟩ | ⟨rfl, rfl⟩
  · exact own
  · exact own.trans (EdgeId.between_comm _ _)

/-- However a graph was built, every node stands under its own identifier, and every edge under its
own, which is that of its ends. So an edge that joins two peers is the only one that does, and it is
what is found between them, from either end. -/
theorem Built.keyed {g : Graph} (built : g.Built) :
    (∀ p n, g.nodes.get? p = some n → n.id = p) ∧
    (∀ id e, g.edges.get? id = some e → e.id = id ∧ e.id = .between e.source e.target) ∧
    (∀ a b, g.edge? a b = g.edge? b a) ∧
    ∀ e ∈ g.edges.values, ∀ a b,
      (e.source = a ∧ e.target = b) ∨ (e.source = b ∧ e.target = a) →
        g.edge? a b = some e ∧ g.edge? b a = some e ∧
          ∀ f ∈ g.edges.values,
            (f.source = a ∧ f.target = b) ∨ (f.source = b ∧ f.target = a) → f = e := by
  have sound := built.sound
  have finds : ∀ e ∈ g.edges.values, ∀ a b,
      (e.source = a ∧ e.target = b) ∨ (e.source = b ∧ e.target = a) → g.edge? a b = some e := by
    intro e there a b ends
    obtain ⟨id, found⟩ := mem_values.1 there
    rwa [sound.id_eq found ends] at found
  refine ⟨sound.node, fun id e found => ?_, g.edge?_comm, fun e there a b ends => ?_⟩
  · obtain ⟨whole, own⟩ := sound.edge id e found
    exact ⟨own, congrArg Edge.id whole⟩
  · have own := finds e there a b ends
    refine ⟨own, (g.edge?_comm b a).trans own, fun f other ends => ?_⟩
    exact Option.some.inj ((finds f other a b ends).symm.trans own)

/-- A graph is read that lists a node twice, and a link in both directions under identifiers of other
links; it gains an observation and takes over another graph. One link is left, and it is found from
either end. -/
theorem Built.keyed_repeated :
    let written : Json := .object [
      ("nodes", .array [.object [("id", .text "A")],
        .object [("id", .text "A"), ("name", .text "a")]]),
      ("links", .array [
        .object [("id", .text "0"), ("from", .text "B"), ("to", .text "A"), ("label", .text "x")],
        .object [("id", .text "1"), ("from", .text "A"), ("to", .text "B"), ("label", .text "y")]])]
    let listing : GraphListing := ⟨[⟨⟨"A"⟩, none, []⟩, ⟨⟨"A"⟩, some "a", []⟩],
      [⟨⟨"B"⟩, ⟨"A"⟩, "x"⟩, ⟨⟨"A"⟩, ⟨"B"⟩, "y"⟩]⟩
    let g : Graph := ((Graph.ofListing listing).observe ⟨⟨"B"⟩, ⟨⟨"A"⟩, ⟨"B"⟩⟩, "P2P"⟩).absorb
      (single ⟨"C"⟩ ["trader"])
    let e : Edge := .between ⟨"B"⟩ ⟨"A"⟩ "x"
    decode .text (.ofJson written) = .ok (Graph.ofListing listing) ∧
      e ∈ g.edges.values ∧ g.edge? ⟨"A"⟩ ⟨"B"⟩ = some e ∧ g.edge? ⟨"B"⟩ ⟨"A"⟩ = some e ∧
        ∀ f ∈ g.edges.values, f.source = ⟨"A"⟩ ∧ f.target = ⟨"B"⟩ → f = e := by
  intro written listing g e
  have decoded : decode .text (.ofJson written) = .ok (Graph.ofListing listing) := rfl
  have built : g.Built := .absorb (.observe _ (.of_decode decoded)) (.addLabels _ _ .empty)
  have own : e.id = .between ⟨"A"⟩ ⟨"B"⟩ := EdgeId.between_comm ..
  have read : (Graph.ofListing listing).edges.get? e.id = some e := by
    change ((OrderedMap.empty.insertNew e.id e).insertNew (.between ⟨"A"⟩ ⟨"B"⟩) _).get? e.id = _
    rw [← own, OrderedMap.get?_insertNew, if_pos rfl, OrderedMap.get?_insertNew, if_pos rfl]
    rfl
  have there : e ∈ g.edges.values := by
    refine mem_values.2 ⟨e.id, ?_⟩
    rw [edges_absorb, Option.or_eq_some_iff]
    left
    change ((Graph.ofListing listing).edges.insertNew (.between ⟨"A"⟩ ⟨"B"⟩) _).get? e.id = _
    rw [← own, OrderedMap.get?_insertNew, if_pos rfl, read]
    rfl
  obtain ⟨forth, back, only⟩ := built.keyed.2.2.2 e there ⟨"A"⟩ ⟨"B"⟩ (.inr ⟨rfl, rfl⟩)
  exact ⟨decoded, there, forth, back, fun f other ends => only f other (.inl ends)⟩

/-- A graph nests four containers: itself, the list of its nodes, a node, and its labels. -/
theorem depth_toJson_le (g : Graph) : g.toJson.depth ≤ 4 := by
  have nodes : Json.itemsDepth (g.nodes.values.map Node.toJson) ≤ 2 := by
    refine Json.itemsDepth_map_le fun n _ => ?_
    simp [Node.toJson, Json.depth, Json.membersDepth, Json.itemsDepth_texts]
  have edges : Json.itemsDepth (g.edges.values.map Edge.toJson) ≤ 2 := by
    refine Json.itemsDepth_map_le fun e _ => ?_
    simp [Edge.toJson, Json.depth, Json.membersDepth]
  simp only [toJson, Json.depth, Json.membersDepth]
  omega

end Graph

end TrustMesh
