import TrustMesh.Proofs.Collection.OrderedSet
import TrustMesh.Proofs.Graph.Building

/-!
# The algebra of growth

Absorption is associative, has the empty graph as its unit, and a graph that comes up a
second time, however late, adds nothing. It commutes exactly where the two graphs agree on
names and edges (`Graph.Built.absorb_laws`).

Every way in which a graph grows is the absorption of what it would make of the empty graph
(`Graph.add_eq_absorb`). So an observation that was merged once stays merged, whatever is
added afterwards (`Graph.observation_stays`).
-/

namespace TrustMesh

open Std

/-! ## Nodes -/

namespace Node

variable (n m k : Node)

theorem join_assoc : (n.join m).join k = n.join (m.join k) :=
  congrArg (Node.mk n.id n.name) (OrderedSet.union_assoc ..)

theorem join_self : n.join n = n :=
  congrArg (Node.mk n.id n.name) (OrderedSet.union_self ..)

theorem join_join_self : (n.join m).join n = n.join m :=
  congrArg (Node.mk n.id n.name) (OrderedSet.union_union_self ..)

/-- Nodes of one peer may be joined in either order exactly if they have the same name. -/
theorem join_comm_iff (same : n.id = m.id) : n.join m = m.join n ↔ n.name = m.name := by
  simp only [join, mk.injEq, same, true_and, OrderedSet.union_comm n.labels, and_true]

/-- To add labels is to join a node that has them. -/
theorem join_plain (peer : PeerId) (labels : List String) :
    n.join ((plain peer).addLabels labels) = n.addLabels labels :=
  congrArg (Node.mk n.id n.name) (OrderedSet.union_ofList ..)

end Node

namespace Graph

/-! ## Absorption -/

section Laws

variable {g h : Graph}

/-- Graphs that have the same nodes and the same edges are equal. -/
theorem ext_get? (nodes : ∀ p, g.node? p = h.node? p)
    (edges : ∀ id, g.edges.get? id = h.edges.get? id) : g = h := by
  obtain ⟨gNodes, gEdges⟩ := g
  obtain ⟨hNodes, hEdges⟩ := h
  obtain rfl : gNodes = hNodes := OrderedMap.ext_get? nodes
  obtain rfl : gEdges = hEdges := OrderedMap.ext_get? edges
  rfl

variable (a b c : Graph)

theorem absorb_assoc : (a.absorb b).absorb c = a.absorb (b.absorb c) := by
  refine ext_get? (fun p => ?_) fun id => ?_
  · rw [node?_absorb, node?_absorb, node?_absorb, node?_absorb]
    cases a.node? p <;> cases b.node? p <;> cases c.node? p <;> simp only [Node.join_assoc]
  · rw [edges_absorb, edges_absorb, edges_absorb, edges_absorb, Option.or_assoc]

/-- A graph that comes up a second time adds nothing. -/
theorem absorb_absorb_self : (a.absorb b).absorb a = a.absorb b := by
  refine ext_get? (fun p => ?_) fun id => ?_
  · rw [node?_absorb, node?_absorb]
    cases a.node? p <;> cases b.node? p <;> simp only [Node.join_self, Node.join_join_self]
  · rw [edges_absorb, edges_absorb]
    cases a.edges.get? id <;> cases b.edges.get? id <;> rfl

theorem absorb_empty : a.absorb .empty = a := rfl

theorem empty_absorb : Graph.empty.absorb a = a := by
  refine ext_get? (fun p => ?_) fun id => ?_
  · rw [node?_absorb]
    rfl
  · rw [edges_absorb]
    rfl

theorem absorb_self : a.absorb a = a := absorb_absorb_self a .empty

variable {a b} {p : PeerId} {n : Node} {e : Edge}

/-- A node keeps its name and its labels. -/
theorem node?_absorb_of_left (found : a.node? p = some n) : ∃ m, (a.absorb b).node? p = some m ∧
    m.id = n.id ∧ m.name = n.name ∧ ∀ label ∈ n.labels, label ∈ m.labels := by
  rw [node?_absorb, found]
  cases b.node? p with
  | none => exact ⟨n, rfl, rfl, rfl, fun _ there => there⟩
  | some other => exact ⟨n.join other, rfl, rfl, rfl, fun _ there => OrderedSet.mem_union.2 (.inl there)⟩

/-- An edge stays as it is. -/
theorem edges_absorb_of_left {id : EdgeId} (found : a.edges.get? id = some e) :
    (a.absorb b).edges.get? id = some e := by
  rw [edges_absorb, found]
  rfl

/-- Graphs whose nodes and edges stand under their own identifiers may be absorbed in either order
exactly if they agree on the names of common nodes and on common edges. -/
theorem absorb_comm_iff (first : a.Sound) (second : b.Sound) : a.absorb b = b.absorb a ↔
    (∀ p n m, a.node? p = some n → b.node? p = some m → n.name = m.name) ∧
      ∀ id e f, a.edges.get? id = some e → b.edges.get? id = some f → e = f := by
  have ids : ∀ {p n m}, a.node? p = some n → b.node? p = some m → n.id = m.id :=
    fun found other => (first.node _ _ found).trans (second.node _ _ other).symm
  constructor
  · intro same
    refine ⟨fun p n m found other => ?_, fun id e f found other => ?_⟩
    · have nodes := congrArg (node? · p) same
      simp only [node?_absorb, found, other, Option.some.injEq] at nodes
      exact (Node.join_comm_iff n m (ids found other)).1 nodes
    · have edges := congrArg (·.edges.get? id) same
      simpa only [edges_absorb, found, other, Option.some_or, Option.some.injEq] using edges
  · rintro ⟨names, edges⟩
    refine ext_get? (fun p => ?_) fun id => ?_
    · rw [node?_absorb, node?_absorb]
      cases found : a.node? p with
      | none => cases b.node? p <;> rfl
      | some n =>
        cases other : b.node? p with
        | none => rfl
        | some m =>
          have joined := (Node.join_comm_iff n m (ids found other)).2 (names p n m found other)
          simp only [joined]
    · rw [edges_absorb, edges_absorb]
      cases found : a.edges.get? id with
      | none => cases b.edges.get? id <;> rfl
      | some e =>
        cases other : b.edges.get? id with
        | none => rfl
        | some f =>
          rw [edges id e f found other]

/-- The edges of a sound graph are found under their own identifiers. -/
theorem Sound.get?_eq_some_iff (sound : a.Sound) {id : EdgeId} :
    a.edges.get? id = some e ↔ e ∈ a.edges.values ∧ e.id = id := by
  constructor
  · intro found
    exact ⟨mem_values.2 ⟨id, found⟩, (sound.edge id e found).2⟩
  · rintro ⟨there, rfl⟩
    obtain ⟨key, found⟩ := mem_values.1 there
    rwa [(sound.edge key e found).2]

/-- Absorption is associative and idempotent, also when a graph comes up again later, and the empty
graph is neutral. The result keeps every name and every edge of the first graph; it has the nodes, the
labels and the edge identifiers of both. The order of the two does not matter exactly if they agree on
the names of common nodes and on edges with one identifier. -/
theorem Built.absorb_laws {a b : Graph} (first : a.Built) (second : b.Built) (c : Graph) :
    (a.absorb b).absorb c = a.absorb (b.absorb c) ∧
    a.absorb a = a ∧
    (a.absorb b).absorb a = a.absorb b ∧
    a.absorb .empty = a ∧
    Graph.empty.absorb a = a ∧
    (∀ p n, a.node? p = some n → ∃ m, (a.absorb b).node? p = some m ∧ m.name = n.name) ∧
    (∀ e ∈ a.edges.values, e ∈ (a.absorb b).edges.values) ∧
    (∀ p, (a.absorb b).Shows p ↔ a.Shows p ∨ b.Shows p) ∧
    (∀ p label, (a.absorb b).Labels p label ↔ a.Labels p label ∨ b.Labels p label) ∧
    (∀ id, (∃ e ∈ (a.absorb b).edges.values, e.id = id) ↔
      (∃ e ∈ a.edges.values, e.id = id) ∨ ∃ e ∈ b.edges.values, e.id = id) ∧
    (a.absorb b = b.absorb a ↔
      (∀ p n m, a.node? p = some n → b.node? p = some m → n.name = m.name) ∧
        ∀ e ∈ a.edges.values, ∀ f ∈ b.edges.values, e.id = f.id → e = f) := by
  have listed : ∀ {g : Graph}, g.Built → ∀ id,
      (∃ e ∈ g.edges.values, e.id = id) ↔ (g.edges.get? id).isSome := by
    intro g built id
    simp only [Option.isSome_iff_exists, built.sound.get?_eq_some_iff]
  refine ⟨absorb_assoc a b c, absorb_self a, absorb_absorb_self a b, absorb_empty a, empty_absorb a,
    fun p n found => ?_, fun e there => ?_, fun _ => shows_absorb, fun _ _ => labels_absorb,
    fun id => ?_, (absorb_comm_iff first.sound second.sound).trans (and_congr_right fun _ => ?_)⟩
  · obtain ⟨m, kept, -, name, -⟩ := node?_absorb_of_left (b := b) found
    exact ⟨m, kept, name⟩
  · obtain ⟨id, found⟩ := mem_values.1 there
    exact mem_values.2 ⟨id, edges_absorb_of_left found⟩
  · rw [listed (first.absorb second), listed first, listed second, edges_absorb, Option.isSome_or,
      Bool.or_eq_true]
  · simp only [first.sound.get?_eq_some_iff, second.sound.get?_eq_some_iff]
    constructor
    · intro agree e there f other same
      exact agree e.id e f ⟨there, rfl⟩ ⟨other, same.symm⟩
    · rintro agree id e f ⟨there, rfl⟩ ⟨other, same⟩
      exact agree e there f other same.symm

/-- Two graphs that label a peer differently and join it to another one in opposite directions: the edge
of the first stays, whichever is the first. -/
theorem Built.absorb_laws_opposed :
    let a : Graph := (single ⟨"A"⟩ ["x"]).addEdge ⟨"A"⟩ ⟨"B"⟩ "P2P"
    let b : Graph := (single ⟨"A"⟩ ["y"]).addEdge ⟨"B"⟩ ⟨"A"⟩ "other"
    a.Built ∧ b.Built ∧ (a.absorb b).absorb a = a.absorb b ∧
      Edge.between ⟨"A"⟩ ⟨"B"⟩ "P2P" ∈ (a.absorb b).edges.values ∧
      Edge.between ⟨"B"⟩ ⟨"A"⟩ "other" ∈ (b.absorb a).edges.values ∧
      a.absorb b ≠ b.absorb a := by
  intro a b
  have first : a.Built := .addEdge _ _ _ (.addLabels _ _ .empty)
  have second : b.Built := .addEdge _ _ _ (.addLabels _ _ .empty)
  have own : Edge.between ⟨"A"⟩ ⟨"B"⟩ "P2P" ∈ a.edges.values := List.mem_singleton_self _
  have other : Edge.between ⟨"B"⟩ ⟨"A"⟩ "other" ∈ b.edges.values := List.mem_singleton_self _
  obtain ⟨-, -, again, -, -, -, kept, -, -, -, order⟩ := first.absorb_laws second a
  obtain ⟨-, -, -, -, -, -, kept', -, -, -, -⟩ := second.absorb_laws first a
  refine ⟨first, second, again, kept _ own, kept' _ other, fun same => ?_⟩
  have equal := (order.1 same).2 _ own _ other (EdgeId.between_comm ..)
  simp [Edge.between] at equal

end Laws

/-! ## Additions -/

/-- One way in which a graph grows. -/
inductive Addition where
  | labels (peer : PeerId) (labels : List String)
  | edge (source target : PeerId) (label : String)
  | observation (o : Observation)
  | graph (g : Graph)

/-- A graph after it has grown. -/
def add (g : Graph) : Addition → Graph
  | .labels peer labels => g.addLabels peer labels
  | .edge source target label => g.addEdge source target label
  | .observation o => g.observe o
  | .graph h => g.absorb h

section Additions

variable (g : Graph)

theorem addLabels_eq_absorb (peer : PeerId) (labels : List String) :
    g.addLabels peer labels = g.absorb (empty.addLabels peer labels) := by
  refine ext_get? (fun p => ?_) fun id => ?_
  · rw [node?_absorb, node?_addLabels, node?_addLabels]
    by_cases own : p = peer
    · rw [if_pos own, if_pos own]
      cases g.node? p with
      | none => rfl
      | some n => exact congrArg some (n.join_plain p labels).symm
    · rw [if_neg own, if_neg own]
      cases g.node? p <;> rfl
  · rw [edges_absorb]
    exact Option.or_none.symm

theorem addEdge_eq_absorb (source target : PeerId) (label : String) :
    g.addEdge source target label = g.absorb (empty.addEdge source target label) := by
  refine ext_get? (fun p => ?_) fun id => ?_
  · rw [node?_absorb]
    change g.node? p = _
    cases g.node? p <;> rfl
  · rw [edges_absorb, addEdge, addEdge, OrderedMap.get?_insertNew, OrderedMap.get?_insertNew]
    split
    · rename_i own
      rw [own]
      cases g.edges.get? (.between source target) <;> rfl
    · exact Option.or_none.symm

/-- To merge an observation is to absorb what it makes of the empty graph. -/
theorem observe_eq_absorb (o : Observation) : g.observe o = g.absorb (empty.observe o) := by
  rw [observe, observe, addEdge_eq_absorb, addLabels_eq_absorb, addLabels_eq_absorb g,
    addEdge_eq_absorb (addLabels _ _ _), addLabels_eq_absorb (addLabels _ _ _), absorb_assoc,
    absorb_assoc, absorb_assoc]

/-- To grow is to absorb what the empty graph would grow to. -/
theorem add_eq_absorb (addition : Addition) : g.add addition = g.absorb (empty.add addition) := by
  cases addition with
  | labels peer labels => exact g.addLabels_eq_absorb peer labels
  | edge source target label => exact g.addEdge_eq_absorb source target label
  | observation o => exact g.observe_eq_absorb o
  | graph h => exact congrArg g.absorb h.empty_absorb.symm

theorem foldl_add_eq_absorb (later : List Addition) :
    later.foldl add g = g.absorb (later.foldl add empty) := by
  induction later generalizing g with
  | nil => rfl
  | cons addition rest ih =>
    calc rest.foldl add (g.add addition)
        = (g.add addition).absorb (rest.foldl add empty) := ih _
      _ = (g.absorb (empty.add addition)).absorb (rest.foldl add empty) := by rw [add_eq_absorb]
      _ = g.absorb ((empty.add addition).absorb (rest.foldl add empty)) := absorb_assoc ..
      _ = g.absorb (rest.foldl add (empty.add addition)) := by rw [← ih]

/-- An observation that was merged once stays merged, whatever is added afterwards. -/
theorem observe_foldl_add (o : Observation) (later : List Addition) :
    (later.foldl add (g.observe o)).observe o = later.foldl add (g.observe o) := by
  let seen := empty.observe o
  let added := later.foldl add empty
  have grown : later.foldl add (g.observe o) = g.absorb (seen.absorb added) := by
    rw [foldl_add_eq_absorb, observe_eq_absorb, absorb_assoc]
  calc (later.foldl add (g.observe o)).observe o
      = (g.absorb (seen.absorb added)).absorb seen := by rw [grown, observe_eq_absorb]
    _ = g.absorb ((seen.absorb added).absorb seen) := absorb_assoc ..
    _ = g.absorb (seen.absorb added) := by rw [absorb_absorb_self]
    _ = later.foldl add (g.observe o) := grown.symm

/-- An observation labels both ends and joins them. -/
theorem observe_shows (o : Observation) : (g.observe o).Labels o.peer o.label ∧
    (g.observe o).Labels o.link.near o.label ∧
      ∃ e, (g.observe o).edge? o.link.near o.peer = some e := by
  have gained : ∀ (h : Graph) (p : PeerId), (h.addLabels p [o.label]).Labels p o.label := by
    intro h p
    refine ⟨_, node?_addLabels.trans (if_pos rfl), ?_⟩
    simp [Node.addLabels]
  have near : ((g.addLabels o.peer [o.label]).addLabels o.link.near [o.label]).Labels o.link.near
      o.label := gained _ _
  have peer : ((g.addLabels o.peer [o.label]).addLabels o.link.near [o.label]).Labels o.peer
      o.label := by
    rw [addLabels_eq_absorb, labels_absorb]
    exact .inl (gained g o.peer)
  exact ⟨peer, near, _, (OrderedMap.get?_insertNew ..).trans (if_pos rfl)⟩

/-- To merge an observation is to absorb what it makes of the empty graph. The result labels both ends
and joins them; every node keeps its name and its labels, and every edge stays as it is. Whatever is
added afterwards, merging the observation again changes nothing, and so the digest stays the same. -/
theorem observation_stays (o : Observation) (later : List Addition) :
    g.observe o = g.absorb (empty.observe o) ∧
    (∀ p n, g.node? p = some n → ∃ m, (g.observe o).node? p = some m ∧
      m.name = n.name ∧ ∀ label ∈ n.labels, label ∈ m.labels) ∧
    (∀ id e, g.edges.get? id = some e → (g.observe o).edges.get? id = some e) ∧
    ((g.observe o).Labels o.peer o.label ∧ (g.observe o).Labels o.link.near o.label ∧
      ∃ e, (g.observe o).edge? o.link.near o.peer = some e) ∧
    (later.foldl add (g.observe o)).observe o = later.foldl add (g.observe o) ∧
    ((later.foldl add (g.observe o)).observe o).digest = (later.foldl add (g.observe o)).digest := by
  have same := g.observe_foldl_add o later
  refine ⟨g.observe_eq_absorb o, fun p n found => ?_, fun id e found => ?_, g.observe_shows o, same,
    congrArg digest same⟩
  · rw [observe_eq_absorb]
    obtain ⟨m, kept, -, name, labels⟩ := node?_absorb_of_left (b := empty.observe o) found
    exact ⟨m, kept, name, labels⟩
  · rw [observe_eq_absorb]
    exact edges_absorb_of_left found

end Additions

end Graph

end TrustMesh
