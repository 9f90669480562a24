import TrustMesh.Proofs.Graph.Absorb
import TrustMesh.Proofs.Mesh.Compliance

/-!
# The graph of a query

Where a compliance query began, its graph is the graph of the node's own roles that
absorbed the answers in the order in which they came (`Reaches.workingGraph`), as long as
the memory of the node holds all queries that it started.
-/

namespace TrustMesh

open Std

/-- The graph of an answer to a compliance query. -/
def Body.answerGraph : Body → Graph
  | .complianceResponse graph => graph
  | _ => ∅

/-- The graph that a member knows of itself: its roles. -/
def Member.roleGraph (m : Member) (framework : Framework) : Graph :=
  .single m.id (framework.grantedRoles m.oracle).toList

/-- What a peer makes of the answers to a query: it absorbs them in the order in which they came. -/
def History.collected (h : History) (m : Member) (framework : Framework) (id : MessageId) : Graph :=
  ((h.accepted m.id (Event.isCompliance id)).map (·.body.answerGraph)).foldl Graph.absorb
    (m.roleGraph framework)

theorem History.collected_append (h k : History) (m : Member) (framework : Framework)
    (id : MessageId) : (h ++ k).collected m framework id =
      ((k.accepted m.id (Event.isCompliance id)).map (·.body.answerGraph)).foldl Graph.absorb
        (h.collected m framework id) := by
  rw [collected, accepted_append, List.map_append, List.foldl_append]
  rfl

/-- The graph of a query that a peer started. -/
def Network.workingGraph? (n : Network) (peer : PeerId) (id : MessageId) : Option Graph :=
  (n.nodes.get? peer).bind (·.engine.workingGraph? id)

namespace Deployment

variable {d : Deployment} {a : Member} {e : Engine} {s next : Scene} {h : History} {deed : Deed}
  {id : MessageId} {framework : Framework}

/-- A message of a query is absorbed and told of, or does neither. -/
theorem handle_compliance (surroundings : Surroundings) (sender : Option PeerId) {m : Message}
    {working : Graph} (admits : (Exchange.comply framework).Admits m.body.kind)
    (known : e.queries.peek? m.id = some working) :
    ((e.handle surroundings sender m).engine.queries = e.queries ∧
        (e.handle surroundings sender m).result.event? = none) ∨
      ((e.handle surroundings sender m).engine.queries =
          e.queries.put m.id (working.absorb m.body.answerGraph) ∧
        (e.handle surroundings sender m).result.event?.any (Event.isCompliance m.id) = true) := by
  cases body : m.body with
  | complianceRequest other =>
    have kept : (e.handle surroundings sender m).engine.queries = e.queries :=
      Engine.handle_queries.resolve_right fun ⟨⟨graph, answer⟩, _⟩ => by simp [body] at answer
    simp only [Engine.handle, body] at kept ⊢
    exact .inl ⟨kept, Engine.onComplianceRequest_quiet⟩
  | complianceResponse graph =>
    simp only [Engine.handle, body, Engine.onComplianceResponse, known]
    split
    · exact .inr ⟨rfl, by simp [Engine.tell, Outcome.event?, Event.isCompliance]⟩
    · exact .inl ⟨rfl, rfl⟩
    · exact .inl ⟨rfl, rfl⟩
  | traceRequest target => exact (body ▸ admits).elim
  | traceResponse target graph => exact (body ▸ admits).elim
  | gossip members content graph => exact (body ▸ admits).elim

/-- A deed that is no answer to a query changes nothing in what was collected. -/
theorem collected_of_untold
    (untold : deed.peer = a.id → ¬ deed.event.any (Event.isCompliance id) = true) :
    (h ++ [deed]).collected a framework id = h.collected a framework id := by
  rw [History.collected, History.accepted_of_untold untold, History.collected]

/-- A query that is started begins with the roles of its node. -/
theorem Ledger.workingGraph_start (ledger : d.Ledger h s) (advance : d.Advance s deed next)
    (distinct : (h ++ [deed]).startedIds.Nodup) (first : a ∈ d.members)
    (room : ((h ++ [deed]).queriesOf a.id).length ≤ a.settings.seenCapacity)
    (own : deed.peer = a.id) (began : deed.started? = some (id, .comply framework)) :
    (next.engine a.id).workingGraph? id = some ((h ++ [deed]).collected a framework id) := by
  have unknown := History.unknown_of_nodup distinct began
  have mine := (h.started_concat own began).mem_queriesOf
  have untold := ledger.accepted_eq_nil unknown (fun _ => Event.id_of_isCompliance) a.id
  obtain ⟨ticket, step, rfl, rfl, rfl⟩ := advance.call_of_started first own began
  rw [Scene.engine_after_self, collected_of_untold fun _ => by simp, History.collected, untold]
  refine (Recency.peek?_put_of_room (ledger.within_queries first) mine room).trans ?_
  rw [if_pos rfl, Engine.primary, ledger.identity a first]
  rfl

/-- The node that started a query absorbs what it is told of and leaves the graph alone otherwise. -/
theorem Ledger.workingGraph_handle (ledger : d.Ledger h s)
    (distinct : (h ++ [deed]).startedIds.Nodup) (first : a ∈ d.members)
    (room : ((h ++ [deed]).queriesOf a.id).length ≤ a.settings.seenCapacity)
    (started : h.Started a.id id (.comply framework))
    (working : (s.engine a.id).workingGraph? id = some (h.collected a framework id)) {k : Packet}
    (there : k ∈ s.flight) {step : Step Outcome}
    (call : (s.engine a.id).handle (d.surroundings a) (some k.near) k.message = step)
    (own : deed.peer = a.id) (received : deed.received? = some k.message)
    (event : deed.event = step.result.event?) :
    step.engine.workingGraph? id = some ((h ++ [deed]).collected a framework id) := by
  obtain ⟨peer, exchange, began, -, admits, -⟩ := ledger.exchanges k there
  subst call
  by_cases same : k.message.id = id
  · obtain ⟨-, rfl⟩ :=
      History.Started.unique (History.nodup_startedIds distinct) started (same ▸ began)
    rcases handle_compliance (d.surroundings a) (some k.near) admits (same ▸ working) with
      ⟨kept, quiet⟩ | ⟨absorbed, told⟩
    · rw [collected_of_untold fun _ => by simp [event, quiet], ← working]
      exact congrArg (Recency.peek? · id) kept
    · rw [same] at absorbed told
      rw [History.collected_append, History.accepted_singleton, event, if_pos ⟨own, told⟩, received,
        Engine.workingGraph?, absorbed]
      refine (Recency.peek?_put_of_room (ledger.within_queries first)
        (started.mono _).mem_queriesOf room).trans ?_
      rw [if_pos rfl]
      rfl
  · have untold : ¬ deed.event.any (Event.isCompliance id) = true := by
      rw [event, Option.any_eq_true]
      rintro ⟨told, found, sort⟩
      exact same ((Engine.handle_event found).symm.trans (Event.id_of_isCompliance sort))
    rw [collected_of_untold fun _ => untold, ← working]
    rcases ledger.queries_of_handle first there with kept | asked
    · exact congrArg (Recency.peek? · id) kept
    · refine Recency.Stores.peek?_of_ne Engine.handle_keeps.queries
        (ledger.within_queries first) ?_ room (Ne.symm same)
      rw [History.queriesOf_append]
      exact List.mem_append_left _ asked

/-- Every later deed keeps the graph of a query in step with the answers. -/
theorem Ledger.workingGraph_advance (ledger : d.Ledger h s) (advance : d.Advance s deed next)
    (distinct : (h ++ [deed]).startedIds.Nodup) (first : a ∈ d.members)
    (room : ((h ++ [deed]).queriesOf a.id).length ≤ a.settings.seenCapacity)
    (started : h.Started a.id id (.comply framework))
    (working : (s.engine a.id).workingGraph? id = some (h.collected a framework id)) :
    (next.engine a.id).workingGraph? id = some ((h ++ [deed]).collected a framework id) := by
  cases advance with
  | @start m mem ticket other exchange step call =>
    have differ : id ≠ other := by
      rintro rfl
      exact History.unknown_of_nodup distinct rfl started.mem
    rw [collected_of_untold (by simp), ← working]
    by_cases here : m.id = a.id
    · cases eq_of_id_eq mem first here
      subst call
      rw [Scene.engine_after_self]
      by_cases query : ∃ framework, exchange = .comply framework
      · obtain ⟨framework, rfl⟩ := query
        exact Recency.Stores.peek?_of_ne Engine.start_keeps.queries (ledger.within_queries first)
          (h.started_concat rfl rfl).mem_queriesOf room differ
      · push Not at query
        exact congrArg (Recency.peek? · id) (Engine.start_queries query)
    · rw [Scene.engine_after_of_ne (Ne.symm here)]
  | @handle m mem k rest taken arrived other frame read step call =>
    by_cases here : m.id = a.id
    · cases eq_of_id_eq mem first here
      rw [Scene.engine_after_self]
      exact ledger.workingGraph_handle distinct first room started working
        (taken ▸ Multiset.mem_cons_self ..) call rfl (by simp [Deed.received?, read, Except.toOption])
        rfl
    · rw [Scene.engine_after_of_ne (Ne.symm here), collected_of_untold fun own => (here own).elim,
        working]
  | idle idle => rw [collected_of_untold fun _ => by simp [idle.event], working]

/-- The graph of a query has absorbed the answers that were taken in. -/
theorem Reaches.workingGraph (reaches : d.Reaches h s) (distinct : h.startedIds.Nodup)
    (first : a ∈ d.members) (room : (h.queriesOf a.id).length ≤ a.settings.seenCapacity)
    (started : h.Started a.id id (.comply framework)) :
    (s.engine a.id).workingGraph? id = some (h.collected a framework id) := by
  refine reaches.sinceStart
    (fun h => h.startedIds.Nodup ∧ (h.queriesOf a.id).length ≤ a.settings.seenCapacity)
    (fun h s => (s.engine a.id).workingGraph? id = some (h.collected a framework id))
    ?_ ?_ ?_ ⟨distinct, room⟩ started
  · rintro h deed ⟨distinct, room⟩
    rw [History.queriesOf_append, List.length_append] at room
    exact ⟨History.nodup_startedIds distinct, by omega⟩
  · rintro h s deed next reaches advance ⟨distinct, room⟩ own began
    exact reaches.ledger.workingGraph_start advance distinct first room own began
  · rintro h s deed next reaches advance ⟨distinct, room⟩ started working
    exact reaches.ledger.workingGraph_advance advance distinct first room started working

/-! ## What the graph holds -/

theorem shows_single {p q : PeerId} {labels : List String} :
    (Graph.single p labels).Shows q ↔ q = p := by
  by_cases same : q = p <;>
    simp [Graph.Shows, Graph.single, Graph.addLabels, Graph.node?, Graph.empty, same]

theorem labels_single {p q : PeerId} {labels : List String} {label : String} :
    (Graph.single p labels).Labels q label ↔ q = p ∧ label ∈ labels := by
  by_cases same : q = p <;>
    simp [Graph.Labels, Graph.single, Graph.addLabels, Graph.node?, Graph.empty, Node.addLabels,
      Node.plain, same]

theorem edges_answerGraph {m : Member} {sender : PeerId} {edge : EdgeId} :
    (m.answerGraph framework sender).edges.get? edge =
      if edge = .between m.id sender then some (.between m.id sender m.settings.linkLabel)
      else none := by
  simp [Member.answerGraph, Graph.addEdge, Graph.single, Graph.addLabels, Graph.empty]

variable {f : Flood}

/-- The answers that a query collected are those to the visits of a flood. -/
structure Collects (d : Deployment) (a : Member) (framework : Framework) (id : MessageId)
    (h : History) (f : Flood) : Prop where
  linked : ∀ v ∈ f.heard, d.Linked v.before.peer v.peer
  answers : ∀ graph, graph ∈ (h.accepted a.id (Event.isCompliance id)).map (·.body.answerGraph) ↔
    ∃ v ∈ f.heard, ∃ m ∈ d.members, m.id = v.peer ∧ graph = m.answerGraph framework v.before.peer

/-- When a query has come to its end, it collected the answers to its flood. -/
theorem collects_of_settles (first : a ∈ d.members) {dedup : Bool}
    {alike : ∀ m ∈ d.members, m.settings.complianceDedup = dedup}
    (settles : (d.complianceInquiry first alike id framework).Settles h f) :
    d.Collects a framework id h f := by
  have linked : ∀ v ∈ f.heard, d.Linked v.before.peer v.peer := fun v heard =>
    (trail_concat_iff.1 (settles.orderly.allows v (Multiset.mem_add.2 (.inr heard))).trail).2.1
  have all : f.heard.filter ((d.compliancePlan a dedup).answers · = true) = f.heard :=
    Multiset.filter_eq_self.2 fun _ _ => rfl
  have accepted : (h.accepted a.id (Event.isCompliance id) : Multiset Message) =
      f.heard.map (d.complianceInquiry first alike id framework).answer :=
    settles.accepted.trans (congrArg _ all)
  have mem : ∀ message, message ∈ h.accepted a.id (Event.isCompliance id) ↔ ∃ v ∈ f.heard,
      (d.complianceInquiry first alike id framework).answer v = message := by
    intro message
    rw [← Multiset.mem_coe, accepted, Multiset.mem_map]
  have graph : ∀ v : Visit, ∀ m ∈ d.members, m.id = v.peer →
      ((d.complianceInquiry first alike id framework).answer v).body.answerGraph =
        m.answerGraph framework v.before.peer := by
    intro v m known own
    change (d.memberAt a v.peer).answerGraph framework v.before.peer = _
    rw [← own, memberAt_id known]
  refine ⟨linked, fun _ => List.mem_map.trans ?_⟩
  constructor
  · rintro ⟨message, there, rfl⟩
    obtain ⟨v, heard, rfl⟩ := (mem message).1 there
    obtain ⟨m, known, own⟩ := (linked v heard).member
    exact ⟨v, heard, m, known, own, graph v m known own⟩
  · rintro ⟨v, heard, m, known, own, rfl⟩
    exact ⟨_, (mem _).2 ⟨v, heard, rfl⟩, graph v m known own⟩

variable {p q : PeerId}

/-- The graph shows its own peer and those that heard the query. -/
theorem Collects.shows_iff (collects : d.Collects a framework id h f) :
    (h.collected a framework id).Shows p ↔ p = a.id ∨ p ∈ f.reached := by
  rw [History.collected, Graph.shows_foldl_absorb, Member.roleGraph, shows_single]
  refine or_congr_right ⟨?_, fun reached => ?_⟩
  · rintro ⟨graph, mem, shows⟩
    obtain ⟨v, heard, m, -, own, rfl⟩ := (collects.answers graph).1 mem
    cases shows_single.1 shows
    exact Multiset.mem_map.2 ⟨v, heard, own.symm⟩
  · obtain ⟨v, heard, rfl⟩ := Multiset.mem_map.1 reached
    obtain ⟨m, known, own⟩ := (collects.linked v heard).member
    exact ⟨_, (collects.answers _).2 ⟨v, heard, m, known, own, rfl⟩, shows_single.2 own.symm⟩

/-- Every peer carries the roles that the framework grants to it. -/
theorem Collects.labels_iff (collects : d.Collects a framework id h f) {m : Member}
    (first : a ∈ d.members) (mem : m ∈ d.members) (shown : m.id = a.id ∨ m.id ∈ f.reached)
    {label : String} : (h.collected a framework id).Labels m.id label ↔
      label ∈ framework.grantedRoles m.oracle := by
  rw [History.collected, Graph.labels_foldl_absorb, Member.roleGraph, labels_single]
  constructor
  · rintro (⟨own, granted⟩ | ⟨graph, there, labels⟩)
    · cases eq_of_id_eq mem first own
      exact granted
    · obtain ⟨v, heard, n, known, own, rfl⟩ := (collects.answers graph).1 there
      obtain ⟨same, granted⟩ := labels_single.1 labels
      cases eq_of_id_eq mem known same
      exact granted
  · intro granted
    rcases shown with own | reached
    · cases eq_of_id_eq mem first own
      exact .inl ⟨rfl, granted⟩
    · obtain ⟨v, heard, own⟩ := Multiset.mem_map.1 reached
      exact .inr ⟨_, (collects.answers _).2 ⟨v, heard, m, mem, own.symm, rfl⟩,
        labels_single.2 ⟨rfl, granted⟩⟩

/-- Every edge of the graph is that of a visit. -/
theorem Collects.visit_of_edge (collects : d.Collects a framework id h f) {edge : EdgeId}
    {e : Edge} (found : (h.collected a framework id).edges.get? edge = some e) :
    ∃ v ∈ f.heard, edge = .between v.peer v.before.peer ∧ e.source = v.peer ∧
      e.target = v.before.peer := by
  rcases Graph.edge_of_foldl_absorb found with none | ⟨graph, mem, found⟩
  · simp [Member.roleGraph, Graph.single, Graph.addLabels, Graph.empty] at none
  · obtain ⟨v, heard, m, -, own, rfl⟩ := (collects.answers graph).1 mem
    rw [edges_answerGraph] at found
    split at found
    · rename_i same
      cases found
      exact ⟨v, heard, own ▸ same, own, rfl⟩
    · cases found

/-- The graph joins the peers of a visit and no others. -/
theorem Collects.joins_iff (collects : d.Collects a framework id h f) (differ : d.EdgeIdsDiffer) :
    (h.collected a framework id).Joins p q ↔
      ∃ v ∈ f.heard, (v.peer = p ∧ v.before.peer = q) ∨ (v.peer = q ∧ v.before.peer = p) := by
  constructor
  · rintro ⟨e, mem, ends⟩
    obtain ⟨edge, found⟩ := Graph.mem_values.1 mem
    obtain ⟨v, heard, -, source, target⟩ := collects.visit_of_edge found
    rw [source, target] at ends
    exact ⟨v, heard, ends⟩
  · rintro ⟨v, heard, ends⟩
    obtain ⟨m, known, own⟩ := (collects.linked v heard).member
    have kept : ((h.collected a framework id).edges.get? (.between v.peer v.before.peer)).isSome := by
      refine Graph.isSome_foldl_absorb (.inr ⟨_, (collects.answers _).2 ⟨v, heard, m, known, own,
        rfl⟩, ?_⟩)
      rw [edges_answerGraph, own, if_pos rfl]
      rfl
    obtain ⟨e, found⟩ := Option.isSome_iff_exists.1 kept
    obtain ⟨w, heard', same, source, target⟩ := collects.visit_of_edge found
    refine ⟨e, Graph.mem_values.2 ⟨_, found⟩, ?_⟩
    rw [source, target]
    rcases differ _ _ _ _ (collects.linked v heard).symm (collects.linked w heard').symm same with
      ⟨near, far⟩ | ⟨near, far⟩
    · rwa [← near, ← far]
    · rw [← near, ← far]
      exact ends.symm.imp And.symm And.symm

/-- The graph has an edge for each visit at most. -/
theorem Collects.size_edges_le (collects : d.Collects a framework id h f) :
    (h.collected a framework id).edges.size ≤ f.heard.card := by
  have distinct : ((h.collected a framework id).edges.keys : Multiset EdgeId).Nodup := by
    refine Multiset.coe_nodup.2 (List.pairwise_map.2 ?_)
    refine (h.collected a framework id).edges.increasing.imp fun {x y} less same => ?_
    rw [same] at less
    simp at less
  have visits : ∀ edge ∈ ((h.collected a framework id).edges.keys : Multiset EdgeId),
      edge ∈ f.heard.map fun v => EdgeId.between v.peer v.before.peer := by
    intro edge mem
    obtain ⟨⟨key, e⟩, there, rfl⟩ := List.mem_map.1 (Multiset.mem_coe.1 mem)
    obtain ⟨v, heard, same, -⟩ :=
      collects.visit_of_edge (OrderedMap.get?_eq_some_iff.2 there)
    exact Multiset.mem_map.2 ⟨v, heard, same.symm⟩
  have fewer := Multiset.card_le_card ((Multiset.le_iff_subset distinct).2 visits)
  rwa [Multiset.card_map, Multiset.coe_card, OrderedMap.keys, List.length_map] at fewer

end Deployment

end TrustMesh
