import TrustMesh.Proofs.Graph.Building
import TrustMesh.Proofs.Json.Canonical

/-!
# The written form is canonical

A graph that was built is read back from its text, and from its value, whose members stand in
key order. So graphs are equal exactly if the bytes that are digested are
(`Graph.Built.bytes_inj`).

Reading is lenient, and what it makes of a written graph is said look-up by look-up
(`GraphForm.node?`, `GraphForm.edge?`): for a node all that is listed counts and the last
name wins, for an edge the first link wins and its identifier does not matter. What was read
leniently is written in the canonical form, and read back as it is
(`Graph.written_form_canonical`).
-/

namespace TrustMesh

open Std

/-! ## What is written -/

/-- A link as it is written, with the identifier that it is written with. -/
structure LinkForm where
  id : Option String
  source : PeerId
  target : PeerId
  label : String

/-- A graph as it is written, with the identifiers of its links. -/
structure GraphForm where
  nodes : List NodeEntry
  links : List LinkForm

/-- A link without its identifier. -/
def LinkForm.entry (l : LinkForm) : LinkEntry := ⟨l.source, l.target, l.label⟩

/-- A written graph without the identifiers of its links. -/
def GraphForm.listing (form : GraphForm) : GraphListing := ⟨form.nodes, form.links.map LinkForm.entry⟩

/-- The record of a link that keeps its identifier. -/
def LinkForm.record : Record LinkForm where
  name := "LinkWire"
  fields := [
    .withDefault "id" (fun _ => Decode.optional Decode.text) fun id l => { l with id },
    .required "from" (fun _ => PeerId.decode) fun source l => { l with source },
    .required "to" (fun _ => PeerId.decode) fun target l => { l with target },
    .withDefault "label" (fun _ => Decode.text) fun label l => { l with label }]
  start := ⟨none, ⟨""⟩, ⟨""⟩, ""⟩
  collect := none

/-- The record of a graph that keeps the identifiers of its links. -/
def GraphForm.record : Record GraphForm where
  name := "GraphWire"
  fields := [
    .withDefault "nodes" (fun source => Decode.list (NodeEntry.record.decode source))
      fun nodes g => { g with nodes },
    .withDefault "links" (fun source => Decode.list (LinkForm.record.decode source))
      fun links g => { g with links }]
  start := ⟨[], []⟩
  collect := none

namespace GraphForm

/-- The node that a list of entries for one peer describes: it is shown under the last name that is
given, or else under the identifier of the peer, and has all labels that are listed. -/
def describe (peer : PeerId) (entries : List NodeEntry) : Node :=
  ⟨peer, (entries.filterMap (·.name)).getLast?.getD peer.text,
    .ofList (entries.flatMap (·.labels))⟩

/-- The node of a peer, if it is listed. -/
def node? (form : GraphForm) (peer : PeerId) : Option Node :=
  match form.nodes.filter (·.id = peer) with
  | [] => none
  | entries => some (describe peer entries)

/-- The edge of the first link between the ends that an identifier stands for. -/
def edge? (form : GraphForm) (id : EdgeId) : Option Edge :=
  (form.links.find? fun l => EdgeId.between l.source l.target = id).map fun l =>
    .between l.source l.target l.label

end GraphForm

/-! ## Identifiers of links do not matter -/

section Listing

variable (source : Source)

theorem LinkEntry.partOf_form : LinkEntry.record.PartOf source LinkForm.entry LinkForm.record where
  name := rfl
  fields :=
    .cons (.withDefault (fun _ => (id_map _).symm) fun _ _ => rfl) <|
    .cons (.required (fun _ => (id_map _).symm) fun _ _ => rfl) <|
    .cons (.required (fun _ => (id_map _).symm) fun _ _ => rfl) <|
    .cons (.withDefault (fun _ => (id_map _).symm) fun _ _ => rfl) .nil
  start := rfl
  skips := rfl
  skips' := rfl

theorem GraphListing.partOf_form :
    GraphListing.record.PartOf source GraphForm.listing GraphForm.record where
  name := rfl
  fields :=
    .cons (.withDefault (fun _ => (id_map _).symm) fun _ _ => rfl) <|
    .cons (.withDefault (Decode.list_part (LinkEntry.partOf_form source).decode) fun _ _ => rfl) .nil
  start := rfl
  skips := rfl
  skips' := rfl

/-- A graph is read from a listing, whatever identifiers the links are written with. -/
theorem Graph.decode_eq_map_form (t : Term) :
    Graph.decode source t = (GraphForm.record.decode source t).map fun form => ofListing form.listing := by
  rw [Graph.decode, (GraphListing.partOf_form source).decode]
  cases GraphForm.record.decode source t <;> rfl

end Listing

/-! ## What a listing describes -/

namespace GraphForm

theorem describe_concat (peer : PeerId) (entries : List NodeEntry) (entry : NodeEntry) :
    describe peer (entries ++ [entry]) = (describe peer entries).extend entry := by
  rw [describe, List.flatMap_append, OrderedSet.ofList_append]
  cases named : entry.name <;> simp [describe, Node.extend, named]

/-- The node of a peer is what all its entries together describe. -/
theorem node?_foldl_addEntry (entries : List NodeEntry) (p : PeerId) :
    (entries.foldl Graph.addEntry .empty).node? p =
      match entries.filter (fun n => n.id = p) with
      | [] => none
      | own => some (describe p own) := by
  induction entries using List.reverseRecOn with
  | nil => rfl
  | append_singleton entries entry ih =>
    rw [List.foldl_concat, Graph.node?_addEntry, ih, List.filter_append]
    by_cases own : p = entry.id
    · have gained : [entry].filter (fun n : NodeEntry => n.id = p) = [entry] := by simp [own]
      rw [if_pos own, gained]
      generalize entries.filter (fun n : NodeEntry => n.id = p) = before
      -- Until an entry is read, the peer has its plain node, which is what no entries describe.
      have known : (match before with
          | [] => none
          | own => some (describe p own)).getD (.plain p) = describe p before := by
        cases before <;> rfl
      rw [known, ← describe_concat]
      cases before <;> rfl
    · have same : [entry].filter (fun n : NodeEntry => n.id = p) = [] := by simp [Ne.symm own]
      rw [if_neg own, same, List.append_nil]

variable (form : GraphForm)

theorem node?_ofListing (p : PeerId) : (Graph.ofListing form.listing).node? p = form.node? p := by
  rw [Graph.node?, Graph.ofListing, Graph.nodes_foldl_addEdge]
  exact node?_foldl_addEntry form.nodes p

theorem get?_edges_ofListing (id : EdgeId) :
    (Graph.ofListing form.listing).edges.get? id = form.edge? id := by
  rw [Graph.ofListing, Graph.edges_foldl_addEdge, Graph.edges_foldl_addEntry,
    OrderedMap.get?_foldl_insertNew, listing, List.map_map, List.find?_map]
  rfl

end GraphForm

/-! ## Reading back -/

section Orderless

variable (source : Source)

theorem PeerId.orderless_decode : Decode.Orderless PeerId.decode := by
  intro v p decoded
  obtain ⟨text, found, rfl⟩ := Except.eq_ok_of_map decoded
  rw [PeerId.decode, Decode.orderless_text v text found]
  rfl

theorem NodeEntry.orderless_record : record.Orderless source := by
  refine Record.orderless_of_skips rfl (fun f mem => ?_) fun f mem g mem' differ => ?_
  · simp only [record, List.mem_cons, List.not_mem_nil, or_false] at mem
    rcases mem with rfl | rfl | rfl
    · exact Field.value_of_set (fun _ _ => rfl) PeerId.orderless_decode
    · exact Field.value_of_set (fun _ _ => rfl) Decode.orderless_text.optional
    · exact Field.value_of_set (fun _ _ => rfl) Decode.orderless_text.list
  · simp only [record, List.mem_cons, List.not_mem_nil, or_false] at mem mem'
    rcases mem with rfl | rfl | rfl <;> rcases mem' with rfl | rfl | rfl
    all_goals first
      | exact absurd rfl differ
      | exact Field.apart_of_set (fun _ _ => rfl) (fun _ _ => rfl) fun _ _ _ => rfl

theorem LinkEntry.orderless_record : record.Orderless source := by
  refine Record.orderless_of_skips rfl (fun f mem => ?_) fun f mem g mem' differ => ?_
  · simp only [record, List.mem_cons, List.not_mem_nil, or_false] at mem
    rcases mem with rfl | rfl | rfl | rfl
    · exact Field.value_of_set (fun _ _ => rfl) Decode.orderless_text.optional
    · exact Field.value_of_set (fun _ _ => rfl) PeerId.orderless_decode
    · exact Field.value_of_set (fun _ _ => rfl) PeerId.orderless_decode
    · exact Field.value_of_set (fun _ _ => rfl) Decode.orderless_text
  · simp only [record, List.mem_cons, List.not_mem_nil, or_false] at mem mem'
    rcases mem with rfl | rfl | rfl | rfl <;> rcases mem' with rfl | rfl | rfl | rfl
    all_goals first
      | exact absurd rfl differ
      | exact Field.apart_of_set (fun _ _ => rfl) (fun _ _ => rfl) fun _ _ _ => rfl

theorem GraphListing.orderless_record : record.Orderless source := by
  refine Record.orderless_of_skips rfl (fun f mem => ?_) fun f mem g mem' differ => ?_
  · simp only [record, List.mem_cons, List.not_mem_nil, or_false] at mem
    rcases mem with rfl | rfl
    · exact Field.value_of_set (fun _ _ => rfl)
        (NodeEntry.orderless_record source).decode_canonical.list
    · exact Field.value_of_set (fun _ _ => rfl)
        (LinkEntry.orderless_record source).decode_canonical.list
  · simp only [record, List.mem_cons, List.not_mem_nil, or_false] at mem mem'
    rcases mem with rfl | rfl <;> rcases mem' with rfl | rfl
    all_goals first
      | exact absurd rfl differ
      | exact Field.apart_of_set (fun _ _ => rfl) (fun _ _ => rfl) fun _ _ _ => rfl

/-- A graph is read from the canonical form of what it is read from. -/
theorem Graph.orderless_decode : Decode.Orderless (decode source) := by
  intro v g decoded
  obtain ⟨listing, found, rfl⟩ := Except.eq_ok_of_map decoded
  rw [decode, (GraphListing.orderless_record source).decode_canonical v listing found]
  rfl

end Orderless

namespace Graph

variable {g h : Graph}

/-- A graph is read from its text, and from its value with the members in key order, as it is. -/
structure ReadsBack (g : Graph) : Prop where
  text : Decode.wholeText decode g.toJson.chars = .ok g
  value : Decode.ofJson decode g.toJson.canonical = .ok g

/-- The bytes of the text of a graph. -/
def bytes (g : Graph) : List UInt8 := Utf8.encode g.toJson.chars

/-- A graph is written without numbers. -/
theorem exact_toJson (g : Graph) : g.toJson.Exact :=
  ⟨Json.itemsExact_map fun _ _ =>
      ⟨trivial, trivial, Json.itemsExact_map fun _ _ => trivial, trivial⟩,
    Json.itemsExact_map fun _ _ => ⟨trivial, trivial, trivial, trivial, trivial⟩, trivial⟩

theorem Sound.readsBack (sound : g.Sound) : g.ReadsBack := by
  have again : ∀ source, decode source (g.toJson.reread 0) = .ok g :=
    fun source => decode_reread sound source (by decide)
  constructor
  · rw [Decode.wholeText, Json.read_chars]
    simp only [again, if_true]
  · have same := Json.reread_eq_ofJson g.toJson 0 g.exact_toJson (by
      have depth := g.depth_toJson_le
      have room : 4 ≤ maximalDepth := by decide
      omega)
    exact orderless_decode .value g.toJson g (same ▸ again .value)

/-- Graphs that were built are equal exactly if their bytes are. -/
theorem Built.bytes_inj (first : g.Built) (second : h.Built) : g.bytes = h.bytes ↔ g = h := by
  refine ⟨fun same => ?_, congrArg bytes⟩
  have texts : g.toJson.chars = h.toJson.chars := by
    rw [← Utf8.decode_encode g.toJson.chars, ← Utf8.decode_encode h.toJson.chars]
    exact congrArg Utf8.decode same
  have read := first.sound.readsBack.text
  rw [texts, second.sound.readsBack.text] at read
  exact (Except.ok.inj read).symm

/-- A graph that was built is read back, and its digest is that of its bytes. Two such graphs have the
same bytes only if they are equal. A graph that is read from a written form has a node for each peer
that is listed, with all its labels and its last name, and for each two peers between which links are
listed the edge of the first, whatever identifier it is written with. It is read back as well. -/
theorem written_form_canonical :
    (∀ g, Built g → g.ReadsBack ∧ g.digest = .ofBytes g.bytes) ∧
    (∀ g h, Built g → Built h → (g.bytes = h.bytes ↔ g = h)) ∧
    ∀ source t g, decode source t = .ok g → ∃ form, GraphForm.record.decode source t = .ok form ∧
      (∀ p, g.node? p = form.node? p) ∧ (∀ id, g.edges.get? id = form.edge? id) ∧ g.ReadsBack := by
  refine ⟨fun g built => ⟨built.sound.readsBack, rfl⟩, fun g h first second => first.bytes_inj second,
    fun source t g decoded => ?_⟩
  have back := (Built.of_decode decoded).sound.readsBack
  rw [decode_eq_map_form] at decoded
  obtain ⟨form, found, rfl⟩ := Except.eq_ok_of_map decoded
  exact ⟨form, found, form.node?_ofListing, form.get?_edges_ofListing, back⟩

/-- A peer is listed twice, and named the first time only; a link is listed in both directions, once
under the identifier of another link. -/
theorem written_form_canonical_lenient :
    let written : Json := .object [
      ("links", .array [
        .object [("id", .text "0"), ("from", .text "B"), ("to", .text "A"), ("label", .text "x")],
        .object [("from", .text "A"), ("to", .text "B"), ("label", .text "y")]]),
      ("nodes", .array [
        .object [("id", .text "A"), ("name", .text "a"), ("auras", .array [.text "u"])],
        .object [("id", .text "A"), ("name", .null), ("auras", .array [.text "v", .text "u"])]])]
    ∃ g, decode .text (.ofJson written) = .ok g ∧
      g.node? ⟨"A"⟩ = some ⟨⟨"A"⟩, "a", .ofList ["u", "v", "u"]⟩ ∧ g.node? ⟨"B"⟩ = none ∧
      g.edge? ⟨"A"⟩ ⟨"B"⟩ = some (.between ⟨"B"⟩ ⟨"A"⟩ "x") ∧ g.ReadsBack := by
  intro written
  let form : GraphForm := ⟨[⟨⟨"A"⟩, some "a", ["u"]⟩, ⟨⟨"A"⟩, none, ["v", "u"]⟩],
    [⟨some "0", ⟨"B"⟩, ⟨"A"⟩, "x"⟩, ⟨none, ⟨"A"⟩, ⟨"B"⟩, "y"⟩]⟩
  have decoded : decode .text (.ofJson written) = .ok (ofListing form.listing) := rfl
  have read : GraphForm.record.decode .text (.ofJson written) = .ok form := rfl
  obtain ⟨_, found, nodes, edges, back⟩ := written_form_canonical.2.2 .text (.ofJson written) _ decoded
  cases read.symm.trans found
  have first : form.edge? (.between ⟨"A"⟩ ⟨"B"⟩) = some (.between ⟨"B"⟩ ⟨"A"⟩ "x") := by
    have own : EdgeId.between ⟨"B"⟩ ⟨"A"⟩ = .between ⟨"A"⟩ ⟨"B"⟩ := EdgeId.between_comm ..
    simp [GraphForm.edge?, form, own]
  exact ⟨_, decoded, nodes ⟨"A"⟩, nodes ⟨"B"⟩, (edges _).trans first, back⟩

end Graph

end TrustMesh
