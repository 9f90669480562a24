import TrustMesh.Graph.Localized
import TrustMesh.Proofs.Graph.EdgeId

/-!
# What a node sees of a graph

The view of a node is the quotient of the graph by the identifiers of the node
(`Graph.Built.quotient_localized`): the nodes of others stay as they are, those of the node
itself become one, and two peers are joined if an edge joins them once every own identifier
is read as `me`. This takes edge identifiers that tell the links of the view apart, and no
other peer under the identifier `me`.

Identifiers come from the network, and another peer may well be called `me`. All other peers
are shown as they are even then, and the node `me` is the local node alone; but the links of
that peer are taken for links of the local node (`Graph.Built.foreign_peers_seen`,
`Graph.foreign_me_is_hidden`).
-/

namespace TrustMesh

open Std

namespace Identity

variable {identity : Identity} {p : PeerId}

theorem localize_of_own (own : identity.contains p = true) : identity.localize p = .me := if_pos own

theorem localize_of_foreign (foreign : identity.contains p = false) : identity.localize p = p :=
  if_neg (Bool.eq_false_iff.1 foreign)

/-- A peer that is not read as `me` is another peer, and read as itself. -/
theorem foreign_of_localize_ne (away : identity.localize p ≠ .me) :
    identity.contains p = false ∧ identity.localize p = p := by
  cases whose : identity.contains p with
  | true => exact absurd (localize_of_own whose) away
  | false => exact ⟨rfl, localize_of_foreign whose⟩

/-- A peer that is read as `me` is the local node, or is called so. -/
theorem own_of_localize_eq (self : identity.localize p = .me) :
    identity.contains p = true ∨ identity.contains p = false ∧ p = .me := by
  cases whose : identity.contains p with
  | true => exact .inl rfl
  | false => exact .inr ⟨rfl, (localize_of_foreign whose).symm.trans self⟩

end Identity

namespace Graph

variable {g : Graph} {identity : Identity} {selfLabel : String} {p x y : PeerId} {label : String}
  {e f : Edge}

/-! ## Nodes -/

/-- The nodes of others stand in a sound graph under their own identifiers. -/
theorem entries_foreignNodes (sound : g.Sound) :
    (g.foreignNodes identity).map (fun node => (node.id, node)) =
      g.nodes.entries.filter fun entry => !identity.contains entry.1 := by
  have whose : ∀ entry ∈ g.nodes.entries, entry.2.id = entry.1 := fun entry there =>
    sound.node _ _ (OrderedMap.get?_eq_some_iff.2 there)
  have filed : ∀ entry ∈ g.nodes.entries.filter (fun entry => !identity.contains entry.1),
      (entry.2.id, entry.2) = entry := fun entry there => by
    rw [whose entry (List.mem_of_mem_filter there)]
  rw [foreignNodes, OrderedMap.values, List.filter_map, List.map_map]
  refine .trans ?_ ((List.map_congr_left filed).trans (List.map_id _))
  exact congrArg _ (List.filter_congr fun entry there => by simp [whose entry there])

/-- A node sees itself as `me` and the nodes of others as they are. -/
theorem node?_localized (sound : g.Sound) : (g.localized identity selfLabel).node? p =
    if p = .me then some (g.selfNode identity selfLabel)
    else if identity.contains p then none else g.node? p := by
  refine (OrderedMap.get?_insert ..).trans ?_
  by_cases self : p = .me
  · rw [if_pos self, if_pos self]
  · rw [if_neg self, if_neg self]
    have kept := OrderedMap.entries_ofList (g.nodes.increasing.sublist
      (List.filter_sublist (p := fun entry => !identity.contains entry.1)))
    rw [← entries_foreignNodes sound] at kept
    refine Option.ext fun n => OrderedMap.get?_eq_some_iff.trans ?_
    rw [kept, entries_foreignNodes sound, List.mem_filter, ← OrderedMap.get?_eq_some_iff]
    by_cases own : identity.contains p = true
    · simp [own]
    · simp [own, node?]

/-- The labels that a node sees at itself are those of its nodes. -/
theorem mem_ownLabels (sound : g.Sound) : label ∈ g.ownLabels identity ↔
    ∃ p n, identity.contains p = true ∧ g.node? p = some n ∧ label ∈ n.labels := by
  rw [ownLabels, OrderedSet.mem_ofList, List.mem_flatMap]
  constructor
  · rintro ⟨n, there, labels⟩
    obtain ⟨mem, own⟩ := List.mem_filter.1 there
    obtain ⟨p, found⟩ := mem_values.1 mem
    exact ⟨p, n, sound.node p n found ▸ own, found, labels⟩
  · rintro ⟨p, n, own, found, labels⟩
    exact ⟨n, List.mem_filter.2 ⟨mem_values.2 ⟨p, found⟩, (sound.node p n found).symm ▸ own⟩, labels⟩

/-- The node that stands for the local node: it is shown under the name `selfLabel` and carries the
labels of all own nodes of a graph. -/
structure IsSelf (g : Graph) (identity : Identity) (selfLabel : String) (n : Node) : Prop where
  id : n.id = .me
  name : n.name = selfLabel
  labels : ∀ label, label ∈ n.labels ↔ ∃ own, identity.contains own = true ∧ g.Labels own label

theorem isSelf_iff (sound : g.Sound) {n : Node} :
    g.IsSelf identity selfLabel n ↔ n = g.selfNode identity selfLabel := by
  have own : ∀ label, label ∈ g.ownLabels identity ↔
      ∃ own, identity.contains own = true ∧ g.Labels own label := by
    intro label
    simp only [mem_ownLabels sound, Labels, exists_and_left]
  constructor
  · rintro ⟨id, name, labels⟩
    obtain ⟨_, _, _⟩ := n
    cases id
    cases name
    congr 1
    exact OrderedSet.ext_mem fun label => (labels label).trans (own label).symm
  · rintro rfl
    exact ⟨rfl, rfl, own⟩

/-- A peer has a node, or is an end of an edge. -/
def Mentions (g : Graph) (p : PeerId) : Prop :=
  g.Shows p ∨ ∃ e ∈ g.edges.values, e.source = p ∨ e.target = p

/-! ## Edges -/

/-- An edge joins two peers once its ends are read in some way. -/
def JoinsAs (g : Graph) (read : PeerId → PeerId) (x y : PeerId) : Prop :=
  ∃ e ∈ g.edges.values, s(read e.source, read e.target) = s(x, y)

/-- The links of a graph have different identifiers once their ends are read in some way, as long as
they still have two ends. -/
def EdgeIdsDifferAs (g : Graph) (read : PeerId → PeerId) : Prop :=
  ∀ e ∈ g.edges.values, ∀ f ∈ g.edges.values, read e.source ≠ read e.target →
    read f.source ≠ read f.target →
      EdgeId.between (read e.source) (read e.target) = .between (read f.source) (read f.target) →
        s(read e.source, read e.target) = s(read f.source, read f.target)

/-- Two peers are joined by one edge at most. -/
theorem Sound.edge_eq (sound : g.Sound) (first : e ∈ g.edges.values) (second : f ∈ g.edges.values)
    (same : s(e.source, e.target) = s(f.source, f.target)) : e = f := by
  obtain ⟨id, found⟩ := mem_values.1 first
  obtain ⟨id', found'⟩ := mem_values.1 second
  have own : id = .between f.source f.target := sound.id_eq found (Sym2.eq_iff.1 same)
  have own' : id' = .between f.source f.target := sound.id_eq found' (.inl ⟨rfl, rfl⟩)
  rw [own, ← own', found'] at found
  exact (Option.some.inj found).symm

/-- A graph that gains an edge keeps all others; the new one is there unless its identifier was taken. -/
theorem mem_edges_addEdge {source target : PeerId} :
    e ∈ (g.addEdge source target label).edges.values ↔
      e ∈ g.edges.values ∨ e = .between source target label ∧ g.edge? source target = none := by
  rw [addEdge_eq_absorb]
  constructor
  · intro there
    obtain ⟨id, found⟩ := mem_values.1 there
    rw [edges_absorb, Option.or_eq_some_iff] at found
    rcases found with own | ⟨free, new⟩
    · exact .inl (mem_values.2 ⟨id, own⟩)
    · obtain ⟨rfl, rfl⟩ := (edge_of_addEdge new).resolve_right nofun
      exact .inr ⟨rfl, free⟩
  · rintro (there | ⟨rfl, free⟩)
    · obtain ⟨id, found⟩ := mem_values.1 there
      exact mem_values.2 ⟨id, edges_absorb_of_left found⟩
    · refine mem_values.2 ⟨.between source target, ?_⟩
      rw [edges_absorb, show g.edges.get? _ = none from free, Option.none_or, addEdge,
        OrderedMap.get?_insertNew, if_pos rfl]
      rfl

theorem localizeEdge?_eq_some_iff : localizeEdge? identity e = some f ↔
    identity.localize e.source ≠ identity.localize e.target ∧
      f = .between (identity.localize e.source) (identity.localize e.target) e.label := by
  dsimp only [localizeEdge?]
  split
  · rename_i loop
    simp [loop]
  · rename_i apart
    simp [apart, eq_comm]

/-- Under an identifier a node sees the first edge that comes to have it. -/
theorem get?_edges_localized (id : EdgeId) : (g.localized identity selfLabel).edges.get? id =
    (g.edges.values.filterMap (localizeEdge? identity)).find? (·.id = id) := by
  rw [localized, OrderedMap.get?_foldl_insertNew, OrderedMap.get?_empty, Option.none_or]

/-- What a node sees is an edge of the graph whose ends are not read alike. -/
theorem edge_of_localized (there : e ∈ (g.localized identity selfLabel).edges.values) :
    ∃ f ∈ g.edges.values, identity.localize f.source ≠ identity.localize f.target ∧
      e = .between (identity.localize f.source) (identity.localize f.target) f.label := by
  obtain ⟨id, found⟩ := mem_values.1 there
  rw [get?_edges_localized] at found
  obtain ⟨f, original, seen⟩ := List.mem_filterMap.1 (List.mem_of_find?_eq_some found)
  exact ⟨f, original, localizeEdge?_eq_some_iff.1 seen⟩

/-- An edge whose ends are not read alike is seen, if not for itself then for another one that joins the
same two peers. -/
theorem exists_edge_localized (selfLabel : String) (differ : g.EdgeIdsDifferAs identity.localize)
    (there : f ∈ g.edges.values)
    (apart : identity.localize f.source ≠ identity.localize f.target) :
    ∃ e ∈ (g.localized identity selfLabel).edges.values,
      s(e.source, e.target) = s(identity.localize f.source, identity.localize f.target) := by
  let seen := Edge.between (identity.localize f.source) (identity.localize f.target) f.label
  have among : seen ∈ g.edges.values.filterMap (localizeEdge? identity) :=
    List.mem_filterMap.2 ⟨f, there, localizeEdge?_eq_some_iff.2 ⟨apart, rfl⟩⟩
  obtain ⟨e, kept, same, found⟩ := OrderedMap.exists_find?_key Edge.id among
  obtain ⟨original, there', kept⟩ := List.mem_filterMap.1 kept
  obtain ⟨apart', rfl⟩ := localizeEdge?_eq_some_iff.1 kept
  exact ⟨_, mem_values.2 ⟨seen.id, (get?_edges_localized _).trans found⟩,
    differ original there' f there apart' apart same⟩

/-- A node sees each edge with its ends as it sees them, as long as these edges differ. -/
theorem edges_localized (identity : Identity) (selfLabel : String) {edges : List Edge}
    (values : g.edges.values.Perm edges)
    (distinct : ((edges.filterMap (localizeEdge? identity)).map Edge.id).Nodup) :
    (g.localized identity selfLabel).edges.entries.Perm
      ((edges.filterMap (localizeEdge? identity)).map fun e => (e.id, e)) := by
  have seen := values.filterMap (localizeEdge? identity)
  have kept := OrderedMap.entries_foldl_insertNew Edge.id
    ((seen.map Edge.id).nodup_iff.2 distinct)
  exact kept.trans (seen.map _)

/-- Two different peers are joined in the view of a node exactly if an edge joins them as the node reads
its ends. -/
theorem joins_localized (differ : g.EdgeIdsDifferAs identity.localize) (apart : x ≠ y) :
    (g.localized identity selfLabel).Joins x y ↔ g.JoinsAs identity.localize x y := by
  rw [joins_iff]
  constructor
  · rintro ⟨e, there, ends⟩
    obtain ⟨f, original, -, rfl⟩ := edge_of_localized there
    exact ⟨f, original, ends⟩
  · rintro ⟨f, original, ends⟩
    have open' : identity.localize f.source ≠ identity.localize f.target := by
      intro loop
      rw [loop, Sym2.eq_iff] at ends
      rcases ends with ⟨first, second⟩ | ⟨first, second⟩
      · exact apart (first.symm.trans second)
      · exact apart (second.symm.trans first)
    obtain ⟨e, there, same⟩ := exists_edge_localized selfLabel differ original open'
    exact ⟨e, there, same.trans ends⟩

/-- An edge between two other peers is seen as it is. -/
theorem mem_edges_localized_of_foreign (sound : g.Sound)
    (differ : g.EdgeIdsDifferAs identity.localize) (there : e ∈ g.edges.values)
    (foreign : identity.contains e.source = false ∧ e.source ≠ .me)
    (foreign' : identity.contains e.target = false ∧ e.target ≠ .me) (open' : e.source ≠ e.target) :
    e ∈ (g.localized identity selfLabel).edges.values := by
  have source := Identity.localize_of_foreign foreign.1
  have target := Identity.localize_of_foreign foreign'.1
  obtain ⟨seen, mem, ends⟩ := exists_edge_localized selfLabel differ there (by rwa [source, target])
  obtain ⟨f, original, -, rfl⟩ := edge_of_localized mem
  rw [source, target] at ends
  -- No end of `f` is read as `me`, so `f` joins the peers that `e` joins.
  have same : ∀ p ∈ s(f.source, f.target), identity.localize p = p := by
    intro p end'
    have read : identity.localize p ∈ s(e.source, e.target) := by
      rw [← ends]
      exact Sym2.mem_map.2 ⟨p, end', rfl⟩
    refine (Identity.foreign_of_localize_ne fun self => ?_).2
    rcases Sym2.mem_iff.1 (self ▸ read) with self | self
    · exact foreign.2 self.symm
    · exact foreign'.2 self.symm
  have kept : Edge.between (identity.localize f.source) (identity.localize f.target) f.label = f := by
    obtain ⟨id, found⟩ := mem_values.1 original
    rw [same _ (Sym2.mem_mk_left ..), same _ (Sym2.mem_mk_right ..)]
    exact (sound.edge id f found).1.symm
  rw [kept] at mem ends
  exact sound.edge_eq there original ends.symm ▸ mem

/-! ## The view as a whole -/

/-- A view is the quotient of a graph by the identifiers of a node, all of which are read as `me`. -/
structure IsQuotient (view g : Graph) (identity : Identity) (selfLabel : String) : Prop where
  nodes : ∀ p n, view.node? p = some n ↔
    (p = .me ∧ g.IsSelf identity selfLabel n) ∨ (identity.contains p = false ∧ g.node? p = some n)
  joins : ∀ x y, x ≠ y → (view.Joins x y ↔ g.JoinsAs identity.localize x y)
  edges : ∀ e ∈ view.edges.values, ∃ f ∈ g.edges.values,
    e = .between (identity.localize f.source) (identity.localize f.target) f.label
  single : ∀ e ∈ view.edges.values, ∀ f ∈ view.edges.values,
    s(e.source, e.target) = s(f.source, f.target) → e = f
  kept : ∀ e ∈ g.edges.values, identity.contains e.source = false →
    identity.contains e.target = false → e.source ≠ e.target → e ∈ view.edges.values
  loopless : ∀ e ∈ view.edges.values, e.source ≠ e.target
  own : ∀ p, view.Mentions p → identity.contains p = true → p = .me

theorem ne_me_of_foreign (plain : identity.contains .me = false → ¬ g.Mentions .me)
    (foreign : identity.contains p = false) (there : g.Mentions p) : p ≠ .me := by
  rintro rfl
  exact plain foreign there

/-- No peer of a view but `me` is the local node. -/
theorem eq_me_of_mentions (sound : g.Sound)
    (there : (g.localized identity selfLabel).Mentions p) (own : identity.contains p = true) :
    p = .me := by
  by_contra away
  rcases there with shown | ⟨e, seen, ends⟩
  · rw [Shows, node?_localized sound, if_neg away, if_pos own] at shown
    cases shown
  · obtain ⟨f, -, -, rfl⟩ := edge_of_localized seen
    have read : ∃ q, identity.localize q = p := ends.elim (⟨_, ·⟩) (⟨_, ·⟩)
    obtain ⟨q, rfl⟩ := read
    obtain ⟨foreign, same⟩ := Identity.foreign_of_localize_ne away
    rw [same, foreign] at own
    cases own

/-- The view of a node is the quotient of the graph by the identifiers of the node, if no other peer
is called `me` and the links of the view have different identifiers. -/
theorem Built.quotient_localized (built : g.Built)
    (plain : identity.contains .me = false → ¬ g.Mentions .me)
    (differ : g.EdgeIdsDifferAs identity.localize) :
    (g.localized identity selfLabel).IsQuotient g identity selfLabel where
  nodes := by
    intro p n
    rw [node?_localized built.sound, isSelf_iff built.sound]
    by_cases self : p = .me
    · have hidden : ¬ (identity.contains p = false ∧ g.node? p = some n) := by
        rintro ⟨foreign, found⟩
        exact ne_me_of_foreign plain foreign (.inl (Option.isSome_of_eq_some found)) self
      rw [if_pos self, or_iff_left hidden, Option.some.injEq, and_iff_right self]
      exact eq_comm
    · cases whose : identity.contains p with
      | true => simp [self]
      | false => simp [self]
  joins := fun x y apart => joins_localized differ apart
  edges := by
    intro e there
    obtain ⟨f, original, -, same⟩ := edge_of_localized there
    exact ⟨f, original, same⟩
  single := fun e first f second same => (sound_localized g identity selfLabel).edge_eq first second same
  kept := by
    intro e there source target open'
    have away : ∀ p, identity.contains p = false → e.source = p ∨ e.target = p → p ≠ .me :=
      fun p foreign end' => ne_me_of_foreign plain foreign (.inr ⟨e, there, end'⟩)
    exact mem_edges_localized_of_foreign built.sound differ there
      ⟨source, away _ source (.inl rfl)⟩ ⟨target, away _ target (.inr rfl)⟩ open'
  loopless := by
    intro e there
    obtain ⟨f, -, apart, rfl⟩ := edge_of_localized there
    exact apart
  own := fun p there own => eq_me_of_mentions built.sound there own

/-- A node with an alias sees its two links to one peer as one link and none between its own
identifiers. A link between other peers is kept, though one of them has no node. -/
theorem Built.quotient_localized_alias :
    let identity : Identity := .ofPeers ⟨"did:sov:A"⟩ [⟨"A2"⟩]
    let bare := ((single ⟨"A"⟩ ["trader"]).addLabels ⟨"A2"⟩ ["farmer"]).addLabels ⟨"B"⟩ ["buyer"]
    let g := (((bare.addEdge ⟨"B"⟩ ⟨"C"⟩ "P2P").addEdge ⟨"A"⟩ ⟨"B"⟩ "P2P").addEdge ⟨"B"⟩
      ⟨"did:sov:A2"⟩ "other").addEdge ⟨"A"⟩ ⟨"A2"⟩ "P2P"
    let view := g.localized identity "MySelf"
    view.IsQuotient g identity "MySelf" ∧ view.Joins .me ⟨"B"⟩ ∧
      Edge.between ⟨"B"⟩ ⟨"C"⟩ "P2P" ∈ view.edges.values ∧ (∀ e ∈ view.edges.values, e.source ≠ e.target) ∧
      view.node? ⟨"B"⟩ = g.node? ⟨"B"⟩ ∧ view.node? ⟨"A2"⟩ = none ∧ ¬ view.Mentions ⟨"did:sov:A2"⟩ := by
  intro identity bare g view
  have digests : EdgeId.between .me ⟨"B"⟩ ≠ .between ⟨"B"⟩ ⟨"C"⟩ ∧
      EdgeId.between ⟨"A"⟩ ⟨"B"⟩ ≠ .between ⟨"B"⟩ ⟨"C"⟩ := by
    decide +kernel
  have built : g.Built :=
    have nodes : bare.Built := ((Built.addLabels _ _ .empty).addLabels _ _).addLabels _ _
    (((nodes.addEdge _ _ _).addEdge _ _ _).addEdge _ _ _).addEdge _ _ _
  have only : ∀ e ∈ g.edges.values, e = .between ⟨"B"⟩ ⟨"C"⟩ "P2P" ∨ e = .between ⟨"A"⟩ ⟨"B"⟩ "P2P" ∨
      e = .between ⟨"B"⟩ ⟨"did:sov:A2"⟩ "other" ∨ e = .between ⟨"A"⟩ ⟨"A2"⟩ "P2P" := by
    intro e there
    simp only [g, mem_edges_addEdge] at there
    rcases there with (((there | ⟨rfl, -⟩) | ⟨rfl, -⟩) | ⟨rfl, -⟩) | ⟨rfl, -⟩
    · cases there
    · exact .inl rfl
    · exact .inr (.inl rfl)
    · exact .inr (.inr (.inl rfl))
    · exact .inr (.inr (.inr rfl))
  have plain : identity.contains .me = false → ¬ g.Mentions .me := by
    rintro - (shown | ⟨e, there, ends⟩)
    · have bare : g.node? .me = none := by decide +kernel
      rw [Shows, bare] at shown
      cases shown
    · rcases only e there with rfl | rfl | rfl | rfl <;> exact absurd ends (by decide)
  -- The node reads its links as one of two.
  have read : ∀ e ∈ g.edges.values, identity.localize e.source ≠ identity.localize e.target →
      s(identity.localize e.source, identity.localize e.target) = s(.me, ⟨"B"⟩) ∨
        s(identity.localize e.source, identity.localize e.target) = s(⟨"B"⟩, ⟨"C"⟩) := by
    intro e there
    rcases only e there with rfl | rfl | rfl | rfl <;> decide +kernel
  have differ : g.EdgeIdsDifferAs identity.localize := by
    intro e there f there' apart apart' same
    rcases read e there apart with left | left <;> rcases read f there' apart' with right | right
    · exact left.trans right.symm
    · rw [EdgeId.between_congr left, EdgeId.between_congr right] at same
      exact absurd same digests.1
    · rw [EdgeId.between_congr left, EdgeId.between_congr right] at same
      exact absurd same.symm digests.1
    · exact left.trans right.symm
  have quotient : view.IsQuotient g identity "MySelf" := built.quotient_localized plain differ
  have own : Edge.between ⟨"A"⟩ ⟨"B"⟩ "P2P" ∈ g.edges.values := by
    have free : (bare.addEdge ⟨"B"⟩ ⟨"C"⟩ "P2P").edge? ⟨"A"⟩ ⟨"B"⟩ = none :=
      (OrderedMap.get?_insertNew ..).trans (if_neg digests.2)
    simp [g, mem_edges_addEdge, free]
  have other : Edge.between ⟨"B"⟩ ⟨"C"⟩ "P2P" ∈ g.edges.values := by
    have free : bare.edge? ⟨"B"⟩ ⟨"C"⟩ = none := rfl
    simp [g, mem_edges_addEdge, free]
  refine ⟨quotient, (quotient.joins _ _ (by decide)).2 ⟨_, own, by decide +kernel⟩,
    quotient.kept _ other (by decide +kernel) (by decide +kernel) (by decide), quotient.loopless,
    by decide +kernel, by decide +kernel, fun mentions => ?_⟩
  exact absurd (quotient.own _ mentions (by decide +kernel)) (by decide)

/-! ## Other peers that are called `me` -/

/-- A peer that is joined to `me` in a view is another peer. In the graph it is joined to an own
identifier, or to another peer that is called `me`. -/
theorem joins_of_joins_me (joins : (g.localized identity selfLabel).Joins .me y) :
    identity.contains y = false ∧ y ≠ .me ∧ ((∃ own, identity.contains own = true ∧ g.Joins own y) ∨
      identity.contains .me = false ∧ g.Joins .me y) := by
  obtain ⟨e, there, ends⟩ := joins_iff.1 joins
  obtain ⟨f, original, apart, rfl⟩ := edge_of_localized there
  -- One end of `f` is read as `me`, the other one is `y`.
  obtain ⟨p, q, same, self, other, away⟩ : ∃ p q, s(f.source, f.target) = s(p, q) ∧
      identity.localize p = .me ∧ identity.localize q = y ∧ y ≠ .me := by
    rcases Sym2.eq_iff.1 ends with ⟨source, target⟩ | ⟨source, target⟩
    · exact ⟨_, _, rfl, source, target, fun self => apart (source.trans (target.trans self).symm)⟩
    · exact ⟨_, _, Sym2.eq_swap, target, source, fun self => apart ((source.trans self).trans target.symm)⟩
  obtain ⟨foreign, kept⟩ := Identity.foreign_of_localize_ne (other ▸ away)
  obtain rfl : q = y := kept.symm.trans other
  have joins : g.Joins p q := joins_iff.2 ⟨f, original, same⟩
  refine ⟨foreign, away, ?_⟩
  rcases Identity.own_of_localize_eq self with own | ⟨stranger, rfl⟩
  · exact .inl ⟨p, own, joins⟩
  · exact .inr ⟨stranger, joins⟩

/-- Another peer is seen under its name and with its labels, unless it is called `me`. The node `me`
is always the local node: it has the name that is given to it, and no label but those of own nodes.
A peer that is joined to it is another peer, which the graph joins to an own identifier, or to another
peer that is called `me`. -/
theorem Built.foreign_peers_seen (built : g.Built) (identity : Identity) (selfLabel : String) :
    (∀ p n, g.node? p = some n → identity.contains p = false → p ≠ .me →
      (g.localized identity selfLabel).node? p = some n) ∧
    (∃ n, (g.localized identity selfLabel).node? .me = some n ∧ g.IsSelf identity selfLabel n) ∧
    ∀ y, (g.localized identity selfLabel).Joins .me y → identity.contains y = false ∧ y ≠ .me ∧
      ((∃ own, identity.contains own = true ∧ g.Joins own y) ∨
        identity.contains .me = false ∧ g.Joins .me y) := by
  refine ⟨fun p n found foreign away => ?_, ⟨g.selfNode identity selfLabel, ?_, ?_⟩, fun y joins => ?_⟩
  · rw [node?_localized built.sound, if_neg away, foreign]
    exact found
  · rw [node?_localized built.sound, if_pos rfl]
  · exact (isSelf_iff built.sound).2 rfl
  · exact joins_of_joins_me joins

/-- A peer that has `me` behind a namespace, and the name of the local node, is not mistaken for it. -/
theorem Built.foreign_peers_seen_namespace :
    let identity : Identity := .ofPeers ⟨"A"⟩ []
    let written : Json := .object [
      ("nodes", .array [.object [("id", .text "A"), ("auras", .array [.text "P2P"])],
        .object [("id", .text "did:sov:me"), ("name", .text "MySelf"),
          ("auras", .array [.text "trader"])]]),
      ("links", .array [.object [("id", .text "0"), ("from", .text "did:sov:me"), ("to", .text "B")]])]
    ∃ g, decode .text (.ofJson written) = .ok g ∧
      (g.localized identity "MySelf").node? ⟨"did:sov:me"⟩ =
        some ⟨⟨"did:sov:me"⟩, "MySelf", .singleton "trader"⟩ ∧
      (∃ n, (g.localized identity "MySelf").node? .me = some n ∧ g.IsSelf identity "MySelf" n) ∧
      ¬ (g.localized identity "MySelf").Joins .me ⟨"B"⟩ := by
  intro identity written
  let listing : GraphListing := ⟨[⟨⟨"A"⟩, none, ["P2P"]⟩, ⟨⟨"did:sov:me"⟩, some "MySelf", ["trader"]⟩],
    [⟨⟨"did:sov:me"⟩, ⟨"B"⟩, ""⟩]⟩
  have decoded : decode .text (.ofJson written) = .ok (Graph.ofListing listing) := rfl
  obtain ⟨nodes, self, joins⟩ := (Built.of_decode decoded).foreign_peers_seen identity "MySelf"
  refine ⟨_, decoded, nodes _ _ (by decide +kernel) (by decide +kernel) (by decide), self,
    fun joined => ?_⟩
  have only : ∀ p, (Graph.ofListing listing).Joins p ⟨"B"⟩ → p = ⟨"did:sov:me"⟩ := by
    rintro p ⟨e, there, ends⟩
    obtain rfl := List.mem_singleton.1 there
    rcases ends with ⟨rfl, -⟩ | ⟨source, -⟩
    · rfl
    · exact absurd source (by decide)
  obtain ⟨-, -, ⟨p, own, link⟩ | ⟨-, link⟩⟩ := joins _ joined
  · rw [only p link] at own
    exact absurd own (by decide +kernel)
  · exact absurd (only _ link) (by decide)

/-- Another peer that is called `me` is hidden behind the local node, to which its link is taken to
lead. -/
theorem foreign_me_is_hidden :
    let identity : Identity := .ofPeers ⟨"A"⟩ []
    let written : Json := .object [
      ("nodes", .array [.object [("id", .text "me"), ("name", .text "mallory"),
        ("auras", .array [.text "trader"])]]),
      ("links", .array [.object [("id", .text "0"), ("from", .text "me"), ("to", .text "B")]])]
    ∃ g, decode .text (.ofJson written) = .ok g ∧ identity.contains .me = false ∧
      g.node? .me = some ⟨.me, "mallory", .singleton "trader"⟩ ∧
      (g.localized identity "MySelf").node? .me = some ⟨.me, "MySelf", .empty⟩ ∧
      (g.localized identity "MySelf").Joins .me ⟨"B"⟩ ∧
      ¬ ∃ own, identity.contains own = true ∧ g.Joins own ⟨"B"⟩ := by
  intro identity written
  let listing : GraphListing := ⟨[⟨.me, some "mallory", ["trader"]⟩], [⟨.me, ⟨"B"⟩, ""⟩]⟩
  have decoded : decode .text (.ofJson written) = .ok (ofListing listing) := rfl
  have only : (ofListing listing).edges.values = [.between .me ⟨"B"⟩ ""] := rfl
  have differ : (ofListing listing).EdgeIdsDifferAs identity.localize := by
    intro e there f there' _ _ _
    rw [only, List.mem_singleton] at there there'
    rw [there, there']
  have joins : (ofListing listing).JoinsAs identity.localize .me ⟨"B"⟩ :=
    ⟨_, only ▸ List.mem_singleton_self _, by decide +kernel⟩
  refine ⟨_, decoded, by decide +kernel, by decide +kernel, by decide +kernel,
    (joins_localized differ (by decide)).2 joins, ?_⟩
  rintro ⟨own, whose, e, there, ends⟩
  rw [only, List.mem_singleton] at there
  subst there
  rcases ends with ⟨rfl, -⟩ | ⟨source, -⟩
  · exact absurd whose (by decide +kernel)
  · exact absurd source (by decide)

end Graph

end TrustMesh
