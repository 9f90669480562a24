import Mathlib.Combinatorics.SimpleGraph.Acyclic
import TrustMesh.Proofs.Mesh.Legibility
import TrustMesh.Proofs.Mesh.WorkingGraph
import TrustMesh.Proofs.Relay.Acceptance

/-!
# What compliance queries find

Once no frame is in flight, the graph of a query shows the component of the node that
started it, each peer with its roles. Without deduplication it has all links of the
component, and the node was told once for each simple path that begins at it
(`compliance_component`). With deduplication every other node answered once and the
edges are a spanning tree (`compliance_tree`).

A query gets through if its messages can be read, which they can if its framework can be
relayed. A framework may be nested too deeply for that, and then the query is lost
(`deepest_query_is_lost`).
-/

namespace TrustMesh

open Std

/-- The pairs that a graph joins. -/
def Graph.simple (g : Graph) : SimpleGraph PeerId := .fromRel g.Joins

/-- Every pair that a graph joins has an edge of its own. -/
theorem Graph.ncard_edgeSet_le (g : Graph) (within : Set PeerId) :
    (g.simple.induce within).edgeSet.ncard ≤ g.edges.size := by
  classical
  have injective : Function.Injective (Sym2.map (Subtype.val : within → PeerId)) :=
    Sym2.map.injective Subtype.val_injective
  have pairs : Sym2.map Subtype.val '' (g.simple.induce within).edgeSet ⊆
      ↑(g.edges.values.map fun e => s(e.source, e.target)).toFinset := by
    rintro _ ⟨pair, joined, rfl⟩
    induction pair using Sym2.ind with
    | _ p q =>
      obtain ⟨-, joins⟩ := joined
      obtain ⟨e, mem, ends⟩ : g.Joins p q := joins.elim id Joins.symm
      simp only [Sym2.map_mk, Finset.mem_coe, List.mem_toFinset, List.mem_map, Sym2.eq_iff]
      exact ⟨e, mem, ends⟩
  calc (g.simple.induce within).edgeSet.ncard
      = (Sym2.map Subtype.val '' (g.simple.induce within).edgeSet).ncard :=
        (Set.ncard_image_of_injective _ injective).symm
    _ ≤ (g.edges.values.map fun e => s(e.source, e.target)).toFinset.card := by
        rw [← Set.ncard_coe_finset]
        exact Set.ncard_le_ncard pairs (Finset.finite_toSet _)
    _ ≤ g.edges.size := by
        refine (List.toFinset_card_le _).trans ?_
        simp [OrderedMap.values, OrderedMap.size]

/-- A framework that grants a role to one peer. -/
def Framework.granting (role : String) (peer : PeerId) : Framework :=
  ⟨[], [], [], [role], [⟨.ofList [role], .any [.identity peer.text]⟩], .empty⟩

namespace Deployment

/-- What happens when one of two linked members starts a compliance query. -/
def complianceTrial (dedup : Bool) : History × Network :=
  (pair dedup).trial (fun _ => .zero) ⟨"A"⟩ (.comply (.granting "trader" ⟨"B"⟩)) 9

variable {d : Deployment} {a : Member} {h : History} {n : Network} {id : MessageId}
  {framework : Framework} {ids : Nat → MessageId} {f : Flood}

/-- A graph shows the component of a member, each peer with exactly its roles. -/
structure Charts (d : Deployment) (a : Member) (framework : Framework) (g : Graph) : Prop where
  shows : ∀ p, g.Shows p ↔ d.Joined a.id p
  labels : ∀ m ∈ d.members, d.Joined a.id m.id →
    ∃ node, g.node? m.id = some node ∧ node.labels = framework.grantedRoles m.oracle

/-- The edges of a graph are a spanning tree of the component of a member. -/
structure Spans (d : Deployment) (a : Member) (g : Graph) : Prop where
  along : ∀ p q, g.Joins p q → p ≠ q ∧ d.Joined a.id p ∧ d.Linked p q
  tree : (g.simple.induce (d.component a.id)).IsTree
  size : g.edges.size + 1 = (d.component a.id).ncard

/-- The graph of a query in the network is what its node collected. -/
theorem Runs.workingGraph (runs : d.Runs ids h n) (distinct : h.startedIds.Nodup)
    (first : a ∈ d.members) (room : (h.queriesOf a.id).length ≤ a.settings.seenCapacity)
    (started : h.Started a.id id (.comply framework)) :
    n.workingGraph? a.id id = some (h.collected a framework id) := by
  obtain ⟨s, reaches, reflects⟩ := runs.reaches
  obtain ⟨node, found, stands⟩ := reflects.node a first
  rw [Network.workingGraph?, found, Option.bind_some, stands.engine]
  exact reaches.workingGraph distinct first room started

/-- A flood that asks whole frontiers reaches the component of its origin. -/
theorem reached_iff_joined {dedup : Bool} (orderly : f.Orderly (d.compliancePlan a dedup))
    (asked : f.asked = 0) {p : PeerId} : p = a.id ∨ p ∈ f.reached ↔ d.Joined a.id p := by
  constructor
  · rintro (rfl | reached)
    · exact .refl
    · exact orderly.joined_of_reached reached
  · exact orderly.reached_of_joined asked fun s _ q linked onward =>
      .inl (mem_frontier.2 ⟨linked, onward⟩)

/-- What a query collected charts the component. -/
theorem charts_of_settles (first : a ∈ d.members) {dedup : Bool}
    {alike : ∀ m ∈ d.members, m.settings.complianceDedup = dedup}
    (settles : (d.complianceInquiry first alike id framework).Settles h f) :
    d.Charts a framework (h.collected a framework id) := by
  have collects := collects_of_settles first settles
  have reached := fun p => reached_iff_joined settles.orderly settles.asked (p := p)
  refine ⟨fun p => collects.shows_iff.trans (reached p), fun m mem joined => ?_⟩
  have shown := (reached m.id).2 joined
  obtain ⟨node, found⟩ := Option.isSome_iff_exists.1 (collects.shows_iff.2 shown)
  refine ⟨node, found, OrderedSet.ext_mem fun label => ?_⟩
  rw [← collects.labels_iff first mem shown, Graph.Labels]
  constructor
  · exact fun carried => ⟨node, found, carried⟩
  · rintro ⟨other, found', carried⟩
    rw [found] at found'
    cases found'
    exact carried

/-- The graph of a query joins linked peers of the component only. -/
theorem linked_of_joins (first : a ∈ d.members) (differ : d.EdgeIdsDiffer) {dedup : Bool}
    {alike : ∀ m ∈ d.members, m.settings.complianceDedup = dedup}
    (settles : (d.complianceInquiry first alike id framework).Settles h f) {p q : PeerId}
    (joins : (h.collected a framework id).Joins p q) :
    p ≠ q ∧ d.Joined a.id p ∧ d.Linked p q := by
  obtain ⟨v, heard, ends⟩ := ((collects_of_settles first settles).joins_iff differ).1 joins
  have trail := (settles.orderly.allows v (Multiset.mem_add.2 (.inr heard))).trail
  obtain ⟨-, linked, onward⟩ := trail_concat_iff.1 trail
  have apart : v.peer ≠ v.before.peer := fun same => onward (by simp [same])
  have here : d.Joined a.id v.peer := trail.joined _ (by simp [Visit.path])
  have before : d.Joined a.id v.before.peer := trail.joined _ (by simp [Visit.path, Stop.path])
  rcases ends with ⟨rfl, rfl⟩ | ⟨rfl, rfl⟩
  · exact ⟨apart, here, linked.symm⟩
  · exact ⟨apart.symm, before, linked⟩

/-- All visits of a query are answered. -/
theorem answers_eq_heard (f : Flood) (dedup : Bool) :
    f.heard.filter ((d.compliancePlan a dedup).answers · = true) = f.heard :=
  Multiset.filter_eq_self.2 fun _ _ => rfl

/-- When no frame is in flight, the graph of a query that nobody deduplicates shows the component of
the node that started it, each peer with exactly the roles that are granted to it, and joins the
peers that are linked. The node was told of the query once for each simple path over at least one
link that begins at it. -/
theorem compliance_component (runs : d.Runs ids h n) (distinct : h.startedIds.Nodup)
    (legible : h.Legible id) (silent : n.Silent) (differ : d.EdgeIdsDiffer)
    (alike : ∀ m ∈ d.members, m.settings.complianceDedup = false) (first : a ∈ d.members)
    (room : (h.queriesOf a.id).length ≤ a.settings.seenCapacity)
    (started : h.Started a.id id (.comply framework)) :
    ∃ g, n.workingGraph? a.id id = some g ∧ d.Charts a framework g ∧
      (∀ p q, g.Joins p q ↔ p ≠ q ∧ d.Joined a.id p ∧ d.Linked p q) ∧
      (h.emitted a.id).countP (Event.isCompliance id) =
        { path | d.Trail a.id path ∧ 2 ≤ path.length }.ncard := by
  obtain ⟨f, settles⟩ := Inquiry.exists_settles (I := d.complianceInquiry first alike id framework)
    runs silent ⟨legible, distinct, nofun⟩ started
  have spreads : ∀ s q, d.Linked s.peer q → q ∉ s.path → q ∈ d.frontier s :=
    fun _ _ linked onward => mem_frontier.2 ⟨linked, onward⟩
  refine ⟨_, runs.workingGraph distinct first room started,
    charts_of_settles first settles,
    fun p q => ⟨linked_of_joins first differ settles, ?_⟩, ?_⟩
  · rintro ⟨apart, joined, linked⟩
    exact ((collects_of_settles first settles).joins_iff differ).2
      (settles.orderly.exists_heard_of_linked settles.asked rfl spreads joined linked apart)
  · refine (settles.emitted.trans ?_).trans (settles.orderly.card_heard settles.asked rfl spreads)
    exact congrArg Multiset.card (answers_eq_heard f false)

/-- The graph that one of two linked members collects joins it to the other one. -/
theorem compliance_component_pair :
    ∃ g, (complianceTrial false).2.workingGraph? ⟨"A"⟩ .zero = some g ∧ g.Joins ⟨"A"⟩ ⟨"B"⟩ := by
  have runs := (pair false).runs_trial (fun _ => .zero) ⟨"A"⟩ (.comply (.granting "trader" ⟨"B"⟩)) 9
    (by decide +kernel)
  change (pair false).Runs _ (complianceTrial false).1 (complianceTrial false).2 at runs
  generalize tried : complianceTrial false = r at runs ⊢
  obtain ⟨distinct, legible, silent, started, room⟩ : r.1.startedIds.Nodup ∧ r.1.Legible .zero ∧
      r.2.Silent ∧ r.1.Started (Member.plain ⟨"A"⟩ false).id .zero
        (.comply (.granting "trader" ⟨"B"⟩)) ∧
      (r.1.queriesOf (Member.plain ⟨"A"⟩ false).id).length ≤
        (Member.plain ⟨"A"⟩ false).settings.seenCapacity := by
    subst tried
    decide +kernel
  obtain ⟨g, collected, -, joins, -⟩ := compliance_component runs distinct legible silent
    (edgeIdsDifferAs_pair false fun p => p) (by simp [pair, Member.plain]) (by simp [pair]) room started
  exact ⟨g, collected, (joins _ _).2 ⟨by decide, .refl, .inl (by simp [pair])⟩⟩

/-- A query that reaches every other peer once makes the component one larger than its visits. -/
theorem ncard_component (orderly : f.Orderly (d.compliancePlan a true)) (asked : f.asked = 0) :
    (d.component a.id).ncard = f.heard.card + 1 := by
  have once : f.reached.Nodup := orderly.once rfl
  have all : d.component a.id = ↑(insert a.id f.reached.toFinset) := by
    ext p
    rw [component, Set.mem_ofPred_eq, ← reached_iff_joined orderly asked]
    simp
  rw [all, Set.ncard_coe_finset, Finset.card_insert_of_notMem, Multiset.toFinset_card_of_nodup once,
    Flood.reached, Multiset.card_map]
  rw [Multiset.mem_toFinset]
  exact orderly.origin_not_reached

/-- The visits of a query join the component. -/
theorem connected_of_settles (first : a ∈ d.members) (differ : d.EdgeIdsDiffer) {dedup : Bool}
    {alike : ∀ m ∈ d.members, m.settings.complianceDedup = dedup}
    (settles : (d.complianceInquiry first alike id framework).Settles h f) :
    ((h.collected a framework id).simple.induce (d.component a.id)).Connected := by
  have heard : ∀ v ∈ f.heard, ∀ joined : d.Joined a.id v.peer,
      ((h.collected a framework id).simple.induce (d.component a.id)).Reachable
        ⟨a.id, .refl⟩ ⟨v.peer, joined⟩ := by
    refine settles.orderly.heard_induction (motive := fun p => ∀ joined : d.Joined a.id p,
      ((h.collected a framework id).simple.induce (d.component a.id)).Reachable
        ⟨a.id, .refl⟩ ⟨p, joined⟩) (fun _ => .refl _) fun v heard before joined => ?_
    have joins : (h.collected a framework id).Joins v.before.peer v.peer :=
      ((collects_of_settles first settles).joins_iff differ).2 ⟨v, heard, .inr ⟨rfl, rfl⟩⟩
    obtain ⟨apart, earlier, -⟩ := linked_of_joins first differ settles joins
    exact (before earlier).trans (SimpleGraph.Adj.reachable ⟨apart, .inl joins⟩)
  have root : ∀ p, (joined : d.Joined a.id p) →
      ((h.collected a framework id).simple.induce (d.component a.id)).Reachable
        ⟨a.id, .refl⟩ ⟨p, joined⟩ := by
    intro p joined
    rcases (reached_iff_joined settles.orderly settles.asked).2 joined with rfl | reached
    · exact .refl _
    · obtain ⟨v, there, rfl⟩ := Multiset.mem_map.1 reached
      exact heard v there joined
  have : Nonempty (d.component a.id) := ⟨⟨a.id, .refl⟩⟩
  exact ⟨fun p q => (root p p.2).symm.trans (root q q.2)⟩

/-- Where a query is heard only once by each peer, the edges that were collected are a tree. -/
theorem spans_of_settles (first : a ∈ d.members) (differ : d.EdgeIdsDiffer)
    {alike : ∀ m ∈ d.members, m.settings.complianceDedup = true}
    (settles : (d.complianceInquiry first alike id framework).Settles h f) :
    d.Spans a (h.collected a framework id) := by
  have connected := connected_of_settles first differ settles
  have vertices := ncard_component settles.orderly settles.asked
  have edges := (collects_of_settles first settles).size_edges_le
  have pairs := (h.collected a framework id).ncard_edgeSet_le (d.component a.id)
  have : Finite (d.component a.id) :=
    Set.finite_of_ncard_pos (vertices ▸ Nat.succ_pos _)
  have enough := connected.card_vert_le_card_edgeSet_add_one
  rw [Nat.card_coe_set_eq, Nat.card_coe_set_eq] at enough
  refine ⟨fun _ _ => linked_of_joins first differ settles, ?_, by omega⟩
  refine SimpleGraph.isTree_iff_connected_and_card.2 ⟨connected, ?_⟩
  rw [Nat.card_coe_set_eq, Nat.card_coe_set_eq]
  omega

/-- A peer that heard a query once gave one answer, and the answer came home. -/
theorem replied_of_settles {first : a ∈ d.members}
    {alike : ∀ m ∈ d.members, m.settings.complianceDedup = true}
    (settles : (d.complianceInquiry first alike id framework).Settles h f) {p : PeerId}
    (reached : p ∈ f.reached) : ∃ answer, h.replies p id = [answer] ∧
      answer ∈ h.accepted a.id (Event.isCompliance id) := by
  have once : f.reached.count p = 1 :=
    Multiset.count_eq_one_of_mem (settles.orderly.once rfl) reached
  rw [Flood.reached, Multiset.count_map] at once
  obtain ⟨v, only⟩ := Multiset.card_eq_one.1 once
  have heard : v ∈ f.heard := Multiset.mem_of_mem_filter (only ▸ Multiset.mem_singleton_self v)
  have mine : f.heard.filter (fun v => v.peer = p ∧
      (d.compliancePlan a true).answers v = true) = {v} := by
    rw [← only]
    exact Multiset.filter_congr fun w _ => by simp [compliancePlan, eq_comm]
  have replied := settles.replied p
  have accepted := settles.accepted
  refine ⟨(d.complianceInquiry first alike id framework).answer v, ?_, ?_⟩
  · refine Multiset.coe_eq_singleton.1 (replied.trans ?_)
    exact (congrArg _ mine).trans (Multiset.map_singleton ..)
  · refine Multiset.mem_coe.1 (accepted ▸ Multiset.mem_map_of_mem _ ?_)
    exact (answers_eq_heard f true).symm ▸ heard

/-- When no frame is in flight and all nodes deduplicate queries, each node that links join to the
node that started one gave one answer to it, which came home, and no other answer did. The graph
shows each peer with exactly the roles that are granted to it, and its edges are a spanning tree.
The framework must be one that can be relayed. -/
theorem compliance_tree (runs : d.Runs ids h n) (distinct : h.startedIds.Nodup)
    (relayable : framework.Relayable) (silent : n.Silent) (differ : d.EdgeIdsDiffer)
    (alike : ∀ m ∈ d.members, m.settings.complianceDedup = true) (first : a ∈ d.members)
    (room : ∀ m ∈ d.members, h.startedIds.length ≤ m.settings.seenCapacity)
    (started : h.Started a.id id (.comply framework)) :
    (∃ g, n.workingGraph? a.id id = some g ∧ d.Charts a framework g ∧ d.Spans a g) ∧
      (h.emitted a.id).countP (Event.isCompliance id) + 1 = (d.component a.id).ncard ∧
      ∀ m ∈ d.members, d.Joined a.id m.id → m ≠ a → ∃ answer, h.replies m.id id = [answer] ∧
        answer ∈ h.accepted a.id (Event.isCompliance id) := by
  obtain ⟨s, reaches, -⟩ := runs.reaches
  obtain ⟨f, settles⟩ := Inquiry.exists_settles (I := d.complianceInquiry first alike id framework)
    runs silent ⟨reaches.legible distinct started relayable, distinct, fun _ => room⟩ started
  have asked : (h.queriesOf a.id).length ≤ a.settings.seenCapacity :=
    (h.length_queriesOf_le a.id).trans (room a first)
  refine ⟨⟨_, runs.workingGraph distinct first asked started,
    charts_of_settles first settles, spans_of_settles first differ settles⟩, ?_, ?_⟩
  · rw [ncard_component settles.orderly settles.asked]
    exact congrArg (· + 1)
      (settles.emitted.trans (congrArg Multiset.card (answers_eq_heard f true)))
  · intro m mem joined apart
    refine replied_of_settles settles ?_
    refine ((reached_iff_joined settles.orderly settles.asked).2 joined).resolve_left fun own => ?_
    exact apart (eq_of_id_eq mem first own)

/-- One of two linked members that deduplicate collects a tree, and the other one answers once. -/
theorem compliance_tree_pair :
    (∃ g, (complianceTrial true).2.workingGraph? ⟨"A"⟩ .zero = some g ∧
      (pair true).Spans (.plain ⟨"A"⟩ true) g) ∧
      ∃ answer, (complianceTrial true).1.replies ⟨"B"⟩ .zero = [answer] := by
  have runs := (pair true).runs_trial (fun _ => .zero) ⟨"A"⟩ (.comply (.granting "trader" ⟨"B"⟩)) 9
    (by decide +kernel)
  change (pair true).Runs _ (complianceTrial true).1 (complianceTrial true).2 at runs
  generalize tried : complianceTrial true = r at runs ⊢
  obtain ⟨distinct, silent, started, room⟩ : r.1.startedIds.Nodup ∧ r.2.Silent ∧
      r.1.Started (Member.plain ⟨"A"⟩ true).id .zero (.comply (.granting "trader" ⟨"B"⟩)) ∧
      ∀ m ∈ (pair true).members, r.1.startedIds.length ≤ m.settings.seenCapacity := by
    subst tried
    decide +kernel
  have relayable : (Framework.granting "trader" ⟨"B"⟩).Relayable := by decide +kernel
  obtain ⟨⟨g, collected, -, spans⟩, -, answered⟩ := compliance_tree runs distinct
    relayable silent (edgeIdsDifferAs_pair true fun p => p) (by simp [pair, Member.plain]) (by simp [pair]) room
    started
  have apart : Member.plain ⟨"B"⟩ true ≠ .plain ⟨"A"⟩ true := fun same =>
    absurd (congrArg Member.id same) (by decide)
  obtain ⟨answer, replied, -⟩ := answered (.plain ⟨"B"⟩ true) (by simp [pair])
    (.single (.inl (by simp [pair, Member.plain, Member.id]))) apart
  exact ⟨⟨g, collected, spans⟩, answer, replied⟩

/-- Not every framework that is accepted gets through: of two linked members that deduplicate, one
starts a query for the deepest framework, and is told of nothing when no frame is in flight. -/
theorem deepest_query_is_lost :
    ¬ ∀ (d : Deployment) (ids : Nat → MessageId) (h : History) (n : Network) (a : Member)
        (id : MessageId) (framework : Framework), d.Runs ids h n → h.startedIds.Nodup →
      framework.Parsed → n.Silent → d.EdgeIdsDiffer →
      (∀ m ∈ d.members, m.settings.complianceDedup = true) → a ∈ d.members →
      (∀ m ∈ d.members, h.startedIds.length ≤ m.settings.seenCapacity) →
      h.Started a.id id (.comply framework) →
      (h.emitted a.id).countP (Event.isCompliance id) + 1 = (d.component a.id).ncard := by
  intro all
  have parsed : (Engine.keeping 125).Parsed := .inl ⟨_, Framework.parse_chars
    (Engine.proper_keeping 125) (Engine.exact_keeping 125) (by decide +kernel)⟩
  have runs := (pair true).runs_trial (fun _ => .zero) ⟨"A"⟩ (.comply (Engine.keeping 125)) 9
    (by decide +kernel)
  generalize tried : (pair true).trial (fun _ => .zero) ⟨"A"⟩ (.comply (Engine.keeping 125)) 9 = r
    at runs
  obtain ⟨distinct, silent, started, room, untold⟩ : r.1.startedIds.Nodup ∧ r.2.Silent ∧
      r.1.Started (Member.plain ⟨"A"⟩ true).id .zero (.comply (Engine.keeping 125)) ∧
      (∀ m ∈ (pair true).members, r.1.startedIds.length ≤ m.settings.seenCapacity) ∧
      r.1.emitted (Member.plain ⟨"A"⟩ true).id = [] := by
    subst tried
    decide +kernel
  have alone := all _ _ _ _ _ _ _ runs distinct parsed silent
    (edgeIdsDifferAs_pair true fun p => p) (by simp [pair, Member.plain]) (by simp [pair]) room
    started
  rw [untold, List.countP_nil, Nat.zero_add, eq_comm, Set.ncard_eq_one] at alone
  obtain ⟨p, only⟩ := alone
  have here : (Member.plain ⟨"A"⟩ true).id ∈ (pair true).component (Member.plain ⟨"A"⟩ true).id :=
    .refl
  have there : (Member.plain ⟨"B"⟩ true).id ∈ (pair true).component (Member.plain ⟨"A"⟩ true).id :=
    .single (.inl (by simp [pair, Member.plain, Member.id]))
  rw [only] at here there
  exact absurd (here.trans there.symm) (by decide)

end Deployment

end TrustMesh
