import TrustMesh.Graph.Codec
import TrustMesh.Proofs.Collection.OrderedMap
import TrustMesh.Proofs.Collection.OrderedSet
import TrustMesh.Proofs.Json.Record

/-!
# Graphs that were written

A graph in which every node and every edge stands under its own identifier is read from
its written form as it was (`Graph.decode_reread`). The graphs that peers answer
compliance queries with are of this kind.
-/

namespace TrustMesh

open Std

theorem PeerId.decode_text (s : String) : PeerId.decode (.text s) = .ok ⟨s⟩ := rfl

theorem Json.reread_text (depth : Nat) (s : String) : Json.reread depth (.text s) = .text s := rfl

/-- Strings are read back as they were written. -/
theorem Decode.list_reread_text (depth : Nat) (texts : List String) :
    Decode.list Decode.text (.array (texts.map (Json.reread depth ∘ Json.text))) = .ok texts := by
  have each : Decode.list Decode.text (.array (texts.map (Json.reread depth ∘ Json.text))) =
      .ok (texts.map id) := Decode.list_map fun _ _ => rfl
  rwa [List.map_id] at each

theorem Term.itemsReadable_map {α : Type} {write : α → Term} {items : List α}
    (each : ∀ a ∈ items, (write a).readable = true) :
    Term.itemsReadable (items.map write) = true := by
  induction items with
  | nil => rfl
  | cons a rest ih =>
    rw [List.map_cons, Term.itemsReadable, each a (by simp),
      ih fun b mem => each b (List.mem_cons_of_mem _ mem)]
    rfl

/-- The node with what one more entry lists. -/
def Node.extend (n : Node) (entry : NodeEntry) : Node :=
  ⟨n.id, entry.name.getD n.name, n.labels.insertAll entry.labels⟩

namespace Graph

/-- Every node and every edge of a graph stands under its own identifier, and that of an edge follows
from its ends. -/
structure Sound (g : Graph) : Prop where
  node : ∀ p n, g.nodes.get? p = some n → n.id = p
  edge : ∀ id e, g.edges.get? id = some e → e = .between e.source e.target e.label ∧ e.id = id

/-- What is written of a node. -/
def entry (n : Node) : NodeEntry := ⟨n.id, some n.name, n.labels.toList⟩

/-- What is written of an edge. -/
def linkEntry (e : Edge) : LinkEntry := ⟨e.source, e.target, e.label⟩

theorem decode_node (source : Source) (n : Node) {depth : Nat} (shallow : depth + 1 < maximalDepth) :
    NodeEntry.record.decode source (n.toJson.reread depth) = .ok (entry n) := by
  have outer : depth < maximalDepth := by omega
  simp [Node.toJson, Json.reread, Json.rereadMembers, Json.rereadItems_eq_map, Term.atDepth_of_lt,
    outer, shallow, Record.decode, Record.decodeMembers, Record.readMembers, NodeEntry.record,
    Field.required, Field.withDefault, Record.missing?, PeerId.decode_text, Decode.optional_text,
    Decode.list_reread_text, Except.map]
  rfl

theorem decode_edge (source : Source) (e : Edge) {depth : Nat} (shallow : depth < maximalDepth) :
    LinkEntry.record.decode source (e.toJson.reread depth) = .ok (linkEntry e) := by
  simp [Edge.toJson, Json.reread, Json.rereadMembers, Term.atDepth_of_lt,
    shallow, Record.decode, Record.decodeMembers, Record.readMembers, LinkEntry.record,
    Field.required, Field.withDefault, Record.missing?, PeerId.decode_text, Decode.optional_text,
    Decode.text, Except.map]
  rfl

/-- Labels are added to the node of one peer. -/
theorem node?_addLabels {g : Graph} {p q : PeerId} {labels : List String} :
    (g.addLabels q labels).node? p =
      if p = q then some (((g.node? p).getD (.plain p)).addLabels labels) else g.node? p := by
  refine (OrderedMap.get?_alter ..).trans ?_
  by_cases here : p = q
  · subst here
    rfl
  · rw [if_neg here, if_neg here]
    rfl

/-- An entry extends the node of its peer. -/
theorem node?_addEntry {g : Graph} {entry : NodeEntry} {p : PeerId} :
    (g.addEntry entry).node? p =
      if p = entry.id then some (((g.node? p).getD (.plain p)).extend entry) else g.node? p := by
  obtain ⟨peer, name, labels⟩ := entry
  cases name with
  | none => exact node?_addLabels
  | some name =>
    refine (OrderedMap.get?_alter ..).trans ?_
    change (if p = peer then some { ((g.addLabels peer labels).node? peer).getD _ with name }
      else (g.addLabels peer labels).node? p) = _
    by_cases own : p = peer
    · subst own
      simp only [node?_addLabels, if_pos, Option.getD_some]
      rfl
    · simp only [node?_addLabels, if_neg own]

/-- What is written of a node adds the node. -/
theorem node?_addEntry_entry {g : Graph} {n : Node} (fresh : g.node? n.id = none) (probe : PeerId) :
    (g.addEntry (entry n)).node? probe = if probe = n.id then some n else g.node? probe := by
  have whole : (Node.plain n.id).extend (entry n) = n :=
    congrArg (Node.mk n.id n.name) (OrderedSet.ofList_toList n.labels)
  rw [node?_addEntry]
  by_cases here : probe = n.id
  · subst here
    simp only [entry, if_true, fresh, Option.getD_none]
    exact congrArg some whole
  · exact (if_neg here).trans (if_neg here).symm

theorem edges_foldl_addEntry (nodes : List NodeEntry) (g : Graph) :
    (nodes.foldl addEntry g).edges = g.edges := by
  induction nodes generalizing g with
  | nil => rfl
  | cons n rest ih =>
    rw [List.foldl_cons, ih, addEntry]
    cases n.name <;> rfl

theorem nodes_foldl_addEdge (links : List LinkEntry) (g : Graph) :
    (links.foldl (fun g link => g.addEdge link.source link.target link.label) g).nodes =
      g.nodes := by
  induction links generalizing g with
  | nil => rfl
  | cons link rest ih => exact ih _

/-- The edges of links are added link by link, the first of those with one identifier. -/
theorem edges_foldl_addEdge (links : List LinkEntry) (g : Graph) :
    (links.foldl (fun g l => g.addEdge l.source l.target l.label) g).edges =
      (links.map fun l => Edge.between l.source l.target l.label).foldl
        (fun edges e => edges.insertNew e.id e) g.edges := by
  induction links generalizing g with
  | nil => rfl
  | cons l rest ih => exact ih _

/-- What is written of a graph describes it. -/
theorem ofListing_entries {g : Graph} (sound : g.Sound) :
    ofListing ⟨g.nodes.values.map entry, g.edges.values.map linkEntry⟩ = g := by
  have nodes : ((g.nodes.values.map entry).foldl addEntry empty).nodes = g.nodes := by
    rw [List.foldl_map]
    refine OrderedMap.foldl_values Graph.nodes (fun h p n found fresh => ?_) rfl
    cases sound.node p n found
    exact node?_addEntry_entry fresh
  have edges : ((g.edges.values.map linkEntry).foldl
      (fun h link => h.addEdge link.source link.target link.label)
        ((g.nodes.values.map entry).foldl addEntry empty)).edges = g.edges := by
    rw [List.foldl_map]
    refine OrderedMap.foldl_values Graph.edges (fun h id e found fresh probe => ?_)
      (edges_foldl_addEntry ..)
    obtain ⟨whole, rfl⟩ := sound.edge id e found
    have own : EdgeId.between e.source e.target = e.id := (congrArg Edge.id whole).symm
    simp only [linkEntry, addEdge, OrderedMap.get?_insertNew, own, fresh, ← whole,
      Option.getD_none]
  have parts : ∀ {h k : Graph}, h.nodes = k.nodes → h.edges = k.edges → h = k := by
    rintro ⟨_, _⟩ ⟨_, _⟩ rfl rfl
    rfl
  exact parts ((nodes_foldl_addEdge ..).trans nodes) edges

/-- A graph that was written is read as it was, unless it is nested too deeply. -/
theorem decode_reread {g : Graph} (sound : g.Sound) (source : Source) {depth : Nat}
    (shallow : depth + 3 < maximalDepth) : Graph.decode source (g.toJson.reread depth) = .ok g := by
  have outer : depth < maximalDepth := by omega
  have inner : depth + 1 < maximalDepth := by omega
  have nodes : Decode.list (NodeEntry.record.decode source)
      (.array (g.nodes.values.map (Json.reread (depth + 2) ∘ Node.toJson))) =
        .ok (g.nodes.values.map entry) :=
    Decode.list_map fun n _ => decode_node source n (by omega)
  have edges : Decode.list (LinkEntry.record.decode source)
      (.array (g.edges.values.map (Json.reread (depth + 2) ∘ Edge.toJson))) =
        .ok (g.edges.values.map linkEntry) :=
    Decode.list_map fun e _ => decode_edge source e (by omega)
  have listed : GraphListing.record.decode source (g.toJson.reread depth) =
      .ok ⟨g.nodes.values.map entry, g.edges.values.map linkEntry⟩ := by
    simp [Graph.toJson, Json.reread, Json.rereadMembers, Json.rereadItems_eq_map,
      Term.atDepth_of_lt, outer, inner, Record.decode, Record.decodeMembers, Record.readMembers,
      GraphListing.record, Field.withDefault, Record.missing?, nodes, edges, Except.map]
  rw [decode, listed]
  exact congrArg Except.ok (ofListing_entries sound)

/-- A graph holds nothing that cannot be read, unless it is nested too deeply. -/
theorem readable_reread (g : Graph) {depth : Nat} (shallow : depth + 3 < maximalDepth) :
    (g.toJson.reread depth).readable = true := by
  have outer : depth < maximalDepth := by omega
  have list : depth + 1 < maximalDepth := by omega
  have item : depth + 1 + 1 < maximalDepth := by omega
  have labels : ∀ n : Node, Term.itemsReadable
      (n.labels.toList.map (Json.reread (depth + 1 + 1 + 1 + 1) ∘ Json.text)) = true :=
    fun _ => Term.itemsReadable_map fun _ _ => rfl
  have nodes : Term.itemsReadable
      (g.nodes.values.map (Json.reread (depth + 1 + 1) ∘ Node.toJson)) = true := by
    refine Term.itemsReadable_map fun n _ => ?_
    simp [Node.toJson, Json.reread, Json.rereadMembers, Json.rereadItems_eq_map,
      Term.atDepth_of_lt, item, shallow, Term.readable, Term.membersReadable, Term.text?, labels]
  have edges : Term.itemsReadable
      (g.edges.values.map (Json.reread (depth + 1 + 1) ∘ Edge.toJson)) = true := by
    refine Term.itemsReadable_map fun e _ => ?_
    simp [Edge.toJson, Json.reread, Json.rereadMembers, Term.atDepth_of_lt, item, Term.readable,
      Term.membersReadable, Term.text?]
  simp [toJson, Json.reread, Json.rereadMembers, Json.rereadItems_eq_map, Term.atDepth_of_lt,
    outer, list, Term.readable, Term.membersReadable, Term.text?, nodes, edges]

/-- A graph of one node is sound. -/
theorem sound_single (peer : PeerId) (labels : List String) : (single peer labels).Sound := by
  constructor
  · intro p n found
    simp [single, addLabels, empty, Node.plain, Node.addLabels] at found
    rw [← found.2, found.1]
  · intro id e found
    simp [single, addLabels, empty] at found

/-- An edge of a graph that gained one is the new one or was there before. -/
theorem edge_of_addEdge {g : Graph} {source target : PeerId} {label : String} {id : EdgeId} {e : Edge}
    (found : (g.addEdge source target label).edges.get? id = some e) :
    (id = .between source target ∧ e = .between source target label) ∨
      g.edges.get? id = some e := by
  rw [Graph.addEdge, OrderedMap.get?_insertNew] at found
  split at found
  · rename_i own
    subst own
    cases before : g.edges.get? (.between source target) with
    | some other =>
      rw [before] at found
      exact .inr found
    | none =>
      rw [before] at found
      exact .inl ⟨rfl, (Option.some.inj found).symm⟩
  · exact .inr found

/-- An edge that is added stands under its own identifier. -/
theorem Sound.addEdge {g : Graph} (sound : g.Sound) (source target : PeerId) (label : String) :
    (g.addEdge source target label).Sound := by
  refine ⟨sound.node, fun id e found => ?_⟩
  rcases edge_of_addEdge found with ⟨rfl, rfl⟩ | before
  · exact ⟨rfl, rfl⟩
  · exact sound.edge id e before

end Graph

end TrustMesh
