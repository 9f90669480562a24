import TrustMesh.Graph.Basic

/-!
# Graphs that absorb others

A graph is read through three relations: which peers it shows, which labels they carry,
and which pairs it joins. A graph that absorbed others, in whatever order, shows and
labels what any of them does. Of edges with one identifier it keeps the first, so it
joins what any of them joins only as long as identifiers differ.
-/

namespace TrustMesh

open Std

namespace Graph

variable {g h : Graph} {gs : List Graph} {p q : PeerId} {label : String} {id : EdgeId} {e : Edge}

/-- A peer has a node. -/
def Shows (g : Graph) (p : PeerId) : Prop := (g.node? p).isSome

/-- The node of a peer carries a label. -/
def Labels (g : Graph) (p : PeerId) (label : String) : Prop :=
  ∃ node, g.node? p = some node ∧ label ∈ node.labels

/-- An edge goes from one of two peers to the other. -/
def Joins (g : Graph) (p q : PeerId) : Prop :=
  ∃ e ∈ g.edges.values, (e.source = p ∧ e.target = q) ∨ (e.source = q ∧ e.target = p)

theorem mem_values {κ α : Type} [Ord κ] [LawfulEqOrd κ] {m : OrderedMap κ α} {a : α} :
    a ∈ m.values ↔ ∃ key, m.get? key = some a := by
  simp only [OrderedMap.values, List.mem_map, Prod.exists, OrderedMap.get?_eq_some_iff]
  constructor
  · rintro ⟨key, _, mem, rfl⟩
    exact ⟨key, mem⟩
  · rintro ⟨key, mem⟩
    exact ⟨key, a, mem, rfl⟩

theorem Joins.symm (joins : g.Joins p q) : g.Joins q p := by
  obtain ⟨e, mem, ends⟩ := joins
  exact ⟨e, mem, ends.symm⟩

theorem node?_absorb : (g.absorb h).node? p =
    match g.node? p, h.node? p with
    | some old, some new => some (old.join new)
    | some old, none => some old
    | none, found => found := by
  refine (OrderedMap.get?_mergeWith ..).trans ?_
  unfold node?
  cases g.nodes.get? p <;> cases h.nodes.get? p <;> rfl

theorem edges_absorb : (g.absorb h).edges.get? id = (g.edges.get? id).or (h.edges.get? id) := by
  refine (OrderedMap.get?_mergeWith ..).trans ?_
  cases g.edges.get? id <;> cases h.edges.get? id <;> rfl

theorem shows_absorb : (g.absorb h).Shows p ↔ g.Shows p ∨ h.Shows p := by
  unfold Shows
  rw [node?_absorb]
  cases g.node? p <;> cases h.node? p <;> simp

theorem labels_absorb : (g.absorb h).Labels p label ↔ g.Labels p label ∨ h.Labels p label := by
  unfold Labels
  rw [node?_absorb]
  cases g.node? p <;> cases h.node? p <;> simp [Node.join]

/-! ## Any number of graphs -/

theorem shows_foldl_absorb : (gs.foldl absorb g).Shows p ↔ g.Shows p ∨ ∃ h ∈ gs, h.Shows p := by
  induction gs generalizing g with
  | nil => simp
  | cons h rest ih =>
    rw [List.foldl_cons, ih, shows_absorb]
    simp [or_assoc]

theorem labels_foldl_absorb :
    (gs.foldl absorb g).Labels p label ↔ g.Labels p label ∨ ∃ h ∈ gs, h.Labels p label := by
  induction gs generalizing g with
  | nil => simp
  | cons h rest ih =>
    rw [List.foldl_cons, ih, labels_absorb]
    simp [or_assoc]

/-- Every edge comes from one of the graphs. -/
theorem edge_of_foldl_absorb (found : (gs.foldl absorb g).edges.get? id = some e) :
    g.edges.get? id = some e ∨ ∃ h ∈ gs, h.edges.get? id = some e := by
  induction gs generalizing g with
  | nil => exact .inl found
  | cons h rest ih =>
    rcases ih found with here | ⟨k, mem, there⟩
    · rw [edges_absorb, Option.or_eq_some_iff] at here
      rcases here with own | ⟨-, other⟩
      · exact .inl own
      · exact .inr ⟨h, by simp, other⟩
    · exact .inr ⟨k, List.mem_cons_of_mem _ mem, there⟩

/-- No identifier of an edge is lost. -/
theorem isSome_foldl_absorb (known : (g.edges.get? id).isSome ∨ ∃ h ∈ gs, (h.edges.get? id).isSome) :
    ((gs.foldl absorb g).edges.get? id).isSome := by
  induction gs generalizing g with
  | nil => exact known.resolve_right (by simp)
  | cons h rest ih =>
    refine ih ?_
    rw [edges_absorb, Option.isSome_or, Bool.or_eq_true]
    rcases known with own | ⟨k, mem, there⟩
    · exact .inl (.inl own)
    · rcases List.mem_cons.1 mem with rfl | mem
      · exact .inl (.inr there)
      · exact .inr ⟨k, mem, there⟩

/-- Edges with one identifier join the same two peers, within and across graphs. -/
def EdgesAgree (gs : List Graph) : Prop :=
  ∀ g ∈ gs, ∀ h ∈ gs, ∀ id a b, g.edges.get? id = some a → h.edges.get? id = some b →
    (a.source = b.source ∧ a.target = b.target) ∨ (a.source = b.target ∧ a.target = b.source)

/-- Where edges agree, what any of the graphs joins is joined. -/
theorem joins_foldl_absorb (agree : EdgesAgree (g :: gs)) :
    (gs.foldl absorb g).Joins p q ↔ g.Joins p q ∨ ∃ h ∈ gs, h.Joins p q := by
  constructor
  · rintro ⟨e, mem, ends⟩
    obtain ⟨id, found⟩ := mem_values.1 mem
    rcases edge_of_foldl_absorb found with own | ⟨h, mem, there⟩
    · exact .inl ⟨e, mem_values.2 ⟨id, own⟩, ends⟩
    · exact .inr ⟨h, mem, e, mem_values.2 ⟨id, there⟩, ends⟩
  · intro joined
    obtain ⟨h, mem, e, there, ends⟩ : ∃ h ∈ g :: gs, h.Joins p q := by
      simpa using joined
    obtain ⟨id, found⟩ := mem_values.1 there
    have known : (g.edges.get? id).isSome ∨ ∃ h ∈ gs, (h.edges.get? id).isSome := by
      have known : ∃ h ∈ g :: gs, (h.edges.get? id).isSome := ⟨h, mem, by rw [found]; rfl⟩
      simpa using known
    obtain ⟨kept, held⟩ := Option.isSome_iff_exists.1 (isSome_foldl_absorb known)
    obtain ⟨k, among, source⟩ : ∃ k ∈ g :: gs, k.edges.get? id = some kept := by
      simpa using edge_of_foldl_absorb held
    refine ⟨kept, mem_values.2 ⟨id, held⟩, ?_⟩
    rcases agree k among h mem id kept e source found with ⟨same, same'⟩ | ⟨same, same'⟩
    · rwa [same, same']
    · rw [same, same']
      exact ends.symm.imp And.symm And.symm

theorem edges_single {labels : List String} : (single p labels).edges.get? id = none := by
  simp [single, addLabels, empty]

/-- A graph of one node and one edge has that edge only. -/
theorem edges_single_addEdge {a b : PeerId} {labels : List String} :
    ((single p labels).addEdge a b label).edges.get? id =
      if id = .between a b then some (.between a b label) else none := by
  simp [single, addEdge, addLabels, empty]

/-! ## The order of the graphs -/

variable {hs : List Graph}

theorem shows_foldl_absorb_perm (perm : gs.Perm hs) :
    (gs.foldl absorb g).Shows p ↔ (hs.foldl absorb g).Shows p := by
  simp only [shows_foldl_absorb, perm.mem_iff]

theorem labels_foldl_absorb_perm (perm : gs.Perm hs) :
    (gs.foldl absorb g).Labels p label ↔ (hs.foldl absorb g).Labels p label := by
  simp only [labels_foldl_absorb, perm.mem_iff]

theorem joins_foldl_absorb_perm (perm : gs.Perm hs) (agree : EdgesAgree (g :: gs)) :
    (gs.foldl absorb g).Joins p q ↔ (hs.foldl absorb g).Joins p q := by
  have agree' : EdgesAgree (g :: hs) := fun h mem k mem' =>
    agree h ((perm.cons g).mem_iff.2 mem) k ((perm.cons g).mem_iff.2 mem')
  simp only [joins_foldl_absorb agree, joins_foldl_absorb agree', perm.mem_iff]

/-- The graph of one node agrees with all others. -/
theorem EdgesAgree.cons_single (agree : EdgesAgree gs) (peer : PeerId) (labels : List String) :
    EdgesAgree (single peer labels :: gs) := by
  have bare : ∀ id a, (single peer labels).edges.get? id ≠ some a := fun id a => by
    simp [edges_single]
  intro h mem k mem' id a b found found'
  rcases List.mem_cons.1 mem with rfl | mem
  · exact absurd found (bare id a)
  · rcases List.mem_cons.1 mem' with rfl | mem'
    · exact absurd found' (bare id b)
    · exact agree h mem k mem' id a b found found'

end Graph

end TrustMesh
