import Mathlib.Data.List.Dedup
import TrustMesh.Framework.Samples
import TrustMesh.Proofs.Graph.Absorb
import TrustMesh.Proofs.Relay.Telling

/-!
# The graphs of queries

An engine files a graph under a query when it starts the query and when an answer comes
back whose route begins with one of its identifiers. As long as it has room for all
queries that it files graphs under, the graph of a query that it started is that of its
own roles, which absorbed the answers in the order in which they came
(`Engine.working_graph_of_answers`).

The order of the answers does not matter to the peers and labels that the graph shows.
For the pairs that it joins that takes identifiers of edges that tell pairs apart; those
of peers whose identifiers contain a zero character do not (`Engine.pairs_depend_on_order`).
-/

namespace TrustMesh

namespace Call

/-- The query that a call starts. -/
def query? (c : Call) : Option MessageId :=
  match c.started? with
  | some (id, .comply _) => some id
  | _ => none

/-- The answer that a call delivers to the peer where its query began, with the query. -/
def answered? (identity : Identity) (c : Call) : Option (MessageId × Graph) :=
  match c.message? with
  | some ⟨id, route, .complianceResponse graph⟩ =>
    if route.head?.any identity.contains then some (id, graph) else none
  | _ => none

/-- The answer to one query that a call delivers to the peer where the query began. -/
def answer? (identity : Identity) (q : MessageId) (c : Call) : Option Graph :=
  (c.answered? identity).bind fun answer => if answer.1 = q then some answer.2 else none

/-- The query under which a call files a graph. -/
def files? (identity : Identity) (c : Call) : Option MessageId :=
  c.query?.or ((c.answered? identity).map (·.1))

variable {identity : Identity} {c : Call} {q : MessageId} {graph : Graph}

theorem exists_of_query? (query : c.query? = some q) :
    ∃ s framework, c = .start s q (.comply framework) := by
  unfold query? at query
  split at query
  · rename_i framework starts
    cases query
    obtain ⟨s, rfl⟩ := eq_start_of_started? starts
    exact ⟨s, framework, rfl⟩
  · cases query

theorem answered?_eq_some : c.answered? identity = some (q, graph) ↔
    ∃ m, c.message? = some m ∧ m.id = q ∧ m.body = .complianceResponse graph ∧
      m.beginsAt identity = true := by
  constructor
  · intro answered
    unfold answered? at answered
    split at answered
    · rename_i id route graph delivered
      obtain ⟨begins, same⟩ := Option.ite_none_right_eq_some.1 answered
      cases same
      exact ⟨_, delivered, rfl, rfl, begins⟩
    · cases answered
  · rintro ⟨⟨id, route, body⟩, delivered, rfl, rfl, begins⟩
    simp only [answered?, delivered]
    exact if_pos begins

/-- A call that delivers an answer starts no query. -/
theorem files?_of_answered (answered : c.answered? identity = some (q, graph)) :
    c.files? identity = some q := by
  obtain ⟨m, delivered, -⟩ := answered?_eq_some.1 answered
  have unstarted : c.query? = none := by
    cases c with
    | start s id exchange => cases delivered
    | frame s sender bytes => rfl
    | message s sender m => rfl
  rw [files?, unstarted, answered]
  rfl

theorem answer?_eq_some : c.answer? identity q = some graph ↔
    c.answered? identity = some (q, graph) := by
  unfold answer?
  constructor
  · intro found
    obtain ⟨⟨id, other⟩, answered, same⟩ := Option.bind_eq_some_iff.1 found
    obtain ⟨rfl, own⟩ := Option.ite_none_right_eq_some.1 same
    cases own
    exact answered
  · intro answered
    simp [answered]

end Call

namespace Engine

variable {e : Engine} {c : Call} {calls : List Call} {q id : MessageId} {graph working : Graph}
  {ids : List MessageId} {capacity : Nat}

/-! ## One call -/

/-- An answer is absorbed by the graph of its query. -/
theorem queries_of_answered (answered : c.answered? e.identity = some (id, graph)) :
    (e.perform c).engine.queries = e.queries.put id (e.absorbed id graph) := by
  obtain ⟨m, delivered, rfl, body, begins⟩ := Call.answered?_eq_some.1 answered
  obtain ⟨s, sender, same⟩ := perform_of_message? (e := e) delivered
  rw [same]
  exact (handle_of_answered body begins).1

/-- Calls that file no graph leave the graphs alone. -/
theorem queries_of_idle (idle : c.files? e.identity = none) :
    (e.perform c).engine.queries = e.queries := by
  obtain ⟨unstarted, unanswered⟩ := Option.or_eq_none_iff.1 idle
  rcases c.sorts with ⟨m, delivered⟩ | ⟨id, exchange, starts⟩ | silent
  · obtain ⟨s, sender, same⟩ := perform_of_message? (e := e) delivered
    rw [same]
    refine handle_queries.resolve_right ?_
    rintro ⟨⟨graph, body⟩, began⟩
    have answered := Call.answered?_eq_some.2
      ⟨m, delivered, rfl, body, Message.beginsAt_iff.2 began⟩
    rw [answered] at unanswered
    cases unanswered
  · obtain ⟨s, rfl⟩ := Call.eq_start_of_started? starts
    refine start_queries fun framework same => ?_
    subst same
    cases unstarted
  · rw [engine_of_silent silent]

/-- Only queries under which calls file graphs are kept. -/
theorem perform_queries_within (within : e.queries.Within ids capacity)
    (known : ∀ id, c.files? e.identity = some id → id ∈ ids) :
    (e.perform c).engine.queries.Within ids capacity := by
  cases files : c.files? e.identity with
  | none => rwa [queries_of_idle files]
  | some id =>
    have stores : e.queries.Stores id (e.perform c).engine.queries := by
      rcases Option.or_eq_some_iff.1 files with query | ⟨-, answer⟩
      · obtain ⟨s, framework, rfl⟩ := Call.exists_of_query? query
        exact .inr ⟨_, rfl⟩
      · obtain ⟨⟨own, graph⟩, answered, rfl⟩ := Option.map_eq_some_iff.1 answer
        exact .inr ⟨_, queries_of_answered answered⟩
    exact within.stores stores (known id files)

/-- With room, calls that neither start a query nor deliver an answer to it leave its graph alone. -/
theorem peek?_of_other (within : e.queries.Within ids capacity)
    (known : ∀ id, c.files? e.identity = some id → id ∈ ids) (room : ids.length ≤ capacity)
    (unstarted : c.query? ≠ some q) (unanswered : c.answer? e.identity q = none) :
    (e.perform c).engine.queries.peek? q = e.queries.peek? q := by
  cases files : c.files? e.identity with
  | none => rw [queries_of_idle files]
  | some id =>
    have there := known id files
    rcases Option.or_eq_some_iff.1 files with query | ⟨-, answer⟩
    · have differ : q ≠ id := fun same => unstarted (same ▸ query)
      obtain ⟨s, framework, rfl⟩ := Call.exists_of_query? query
      exact (Recency.peek?_put_of_room within there room).trans (if_neg differ)
    · obtain ⟨⟨own, graph⟩, answered, rfl⟩ := Option.map_eq_some_iff.1 answer
      have differ : q ≠ own := by
        rintro rfl
        rw [Call.answer?_eq_some.2 answered] at unanswered
        cases unanswered
      rw [queries_of_answered answered, Recency.peek?_put_of_room within there room,
        if_neg differ]

/-! ## Any number of calls -/

/-- An engine that is new keeps who it is and how it is set up, and only queries under which calls
file graphs. -/
theorem setup_run_of_create {identity : Identity} {settings : Settings}
    (created : create identity settings = .ok e)
    (known : ∀ c ∈ calls, ∀ id, c.files? identity = some id → id ∈ ids) :
    (e.run calls).identity = identity ∧ (e.run calls).settings = settings ∧
      (e.run calls).queries.Within ids settings.seenCapacity := by
  rw [eq_of_create created]
  refine run_invariant (fun f => f.identity = identity ∧ f.settings = settings ∧
    f.queries.Within ids settings.seenCapacity) ⟨rfl, rfl, Recency.within_empty ..⟩ ?_
  rintro f c mem ⟨rfl, same, within⟩
  exact ⟨perform_setup.1, perform_setup.2.trans same,
    perform_queries_within within (known c mem)⟩

/-- With room, the graph of a query absorbs the answers in the order in which they come. -/
theorem peek?_run_of_answers (within : e.queries.Within ids capacity)
    (known : ∀ c ∈ calls, ∀ id, c.files? e.identity = some id → id ∈ ids)
    (room : ids.length ≤ capacity) (once : ∀ c ∈ calls, c.query? ≠ some q)
    (held : e.queries.peek? q = some working) :
    (e.run calls).queries.peek? q =
      some ((calls.filterMap (Call.answer? e.identity q)).foldl .absorb working) := by
  induction calls generalizing e working with
  | nil => exact held
  | cons c rest ih =>
    have own := known c (List.mem_cons_self ..)
    have identity : (e.perform c).engine.identity = e.identity := perform_setup.1
    have later := fun working => @ih (e.perform c).engine working (perform_queries_within within own)
      (fun c mem => identity.symm ▸ known c (List.mem_cons_of_mem _ mem))
      fun c mem => once c (List.mem_cons_of_mem _ mem)
    rw [identity] at later
    cases answer : c.answer? e.identity q with
    | none =>
      rw [List.filterMap_cons_none answer]
      exact later _ ((peek?_of_other within own room (once c (List.mem_cons_self ..)) answer).trans
        held)
    | some graph =>
      rw [List.filterMap_cons_some answer, List.foldl_cons]
      refine later _ ?_
      have answered := Call.answer?_eq_some.1 answer
      have there : q ∈ ids := own q (Call.files?_of_answered answered)
      rw [queries_of_answered answered, Recency.peek?_put_of_room within there room, if_pos rfl,
        absorbed, held]

/-- With room, an answer that is told of carries the graph of the query at that moment. -/
theorem Entry.working_of_told {x : Entry} (within : x.before.queries.Within ids capacity)
    (known : ∀ id, x.call.files? x.before.identity = some id → id ∈ ids)
    (room : ids.length ≤ capacity) (told : x.event? = some (.complianceUpdated q graph)) :
    ∃ working, x.after.workingGraph? q = some working ∧ graph = x.before.localize working := by
  obtain ⟨m, s, sender, picture, delivered, tells⟩ := Entry.tells told
  cases tells with
  | answered body begins =>
    have answered := Call.answered?_eq_some.2 ⟨m, delivered, rfl, body, begins⟩
    refine ⟨_, ?_, rfl⟩
    have there := known m.id (Call.files?_of_answered answered)
    rw [workingGraph?, Entry.after, Entry.step, queries_of_answered answered,
      Recency.peek?_put_of_room within there room, if_pos rfl]

theorem mem_of_files? {identity : Identity} (mem : c ∈ calls) (files : c.files? identity = some id) :
    id ∈ (calls.filterMap (Call.files? identity)).dedup :=
  List.mem_dedup.2 (List.mem_filterMap.2 ⟨c, mem, files⟩)

/-- With room, a query that was started has the graph of the own roles, which absorbed the answers
that came since. -/
theorem workingGraph?_of_started {identity : Identity} {settings : Settings}
    (created : create identity settings = .ok e) (before later : List Call) (s : Surroundings)
    (q : MessageId) (framework : Framework)
    (room : ((before ++ .start s q (.comply framework) :: later).filterMap
      (Call.files? identity)).dedup.length ≤ settings.seenCapacity)
    (once : ∀ c ∈ later, c.query? ≠ some q) :
    (e.run (before ++ .start s q (.comply framework) :: later)).workingGraph? q =
      some ((later.filterMap (Call.answer? identity q)).foldl .absorb
        (.single identity.primary (framework.grantedRoles s.oracle).toList)) := by
  have known : ∀ c ∈ before ++ .start s q (.comply framework) :: later, ∀ id,
      c.files? identity = some id → id ∈ _ := fun c mem id => mem_of_files? mem
  obtain ⟨rfl, -, within⟩ := setup_run_of_create created
    fun c mem => known c (List.mem_append_left _ mem)
  have own := known (.start s q (.comply framework)) (by simp)
  have started : ((e.run before).perform (.start s q (.comply framework))).engine.queries.peek? q =
      some (.single (e.run before).identity.primary
        (framework.grantedRoles s.oracle).toList) :=
    (Recency.peek?_put_of_room within (own q rfl) room).trans (if_pos rfl)
  rw [run_append, run_cons]
  have identity := perform_setup (e := e.run before) (c := .start s q (.comply framework))
  have absorbs := peek?_run_of_answers (perform_queries_within within own)
    (fun c mem => identity.1.symm ▸ known c (by simp [mem])) room once started
  rwa [identity.1] at absorbs

/-- With room for all queries that it files graphs under, the graph of a query that an engine started
is that of its own roles, which absorbed exactly the answers that came back to it, in their order. No
other call changes it, and each event of the query carries the graph of that moment. Other orders of
the answers lead to the same peers and labels and, where edges with one identifier join the same
peers, to the same pairs. -/
theorem working_graph_of_answers {identity : Identity} {settings : Settings}
    (created : create identity settings = .ok e) {before later : List Call} {s : Surroundings}
    {framework : Framework}
    (room : ((before ++ .start s q (.comply framework) :: later).filterMap
      (Call.files? identity)).dedup.length ≤ settings.seenCapacity)
    (once : ∀ c ∈ later, c.query? ≠ some q) :
    let calls := before ++ .start s q (.comply framework) :: later
    let seed := Graph.single identity.primary (framework.grantedRoles s.oracle).toList
    let answers := later.filterMap (Call.answer? identity q)
    (e.run calls).workingGraph? q = some (answers.foldl .absorb seed) ∧
      (∀ x ∈ e.journal calls, x.call.query? ≠ some q → x.call.answer? identity q = none →
        x.after.workingGraph? q = x.before.workingGraph? q) ∧
      (∀ x ∈ e.journal calls, ∀ graph, x.event? = some (.complianceUpdated q graph) →
        ∃ working, x.after.workingGraph? q = some working ∧
          graph = working.localized identity settings.selfLabel) ∧
      ∀ later' : List Call, ((before ++ .start s q (.comply framework) :: later').filterMap
          (Call.files? identity)).dedup.length ≤ settings.seenCapacity →
        (∀ c ∈ later', c.query? ≠ some q) →
        (later'.filterMap (Call.answer? identity q)).Perm answers →
          ∃ g g', (e.run calls).workingGraph? q = some g ∧
            (e.run (before ++ .start s q (.comply framework) :: later')).workingGraph? q = some g' ∧
            (∀ p, (g.Shows p ↔ g'.Shows p) ∧ ∀ label, g.Labels p label ↔ g'.Labels p label) ∧
            (Graph.EdgesAgree answers → ∀ p r, g.Joins p r ↔ g'.Joins p r) := by
  intro calls seed answers
  have known : ∀ c ∈ calls, ∀ id, c.files? identity = some id →
      id ∈ (calls.filterMap (Call.files? identity)).dedup := fun c mem id => mem_of_files? mem
  have held : (e.run calls).workingGraph? q = some (answers.foldl .absorb seed) :=
    workingGraph?_of_started created before later s q framework room once
  -- What an entry found: an engine that was set up as at the beginning, with room for all queries.
  have found : ∀ x ∈ e.journal calls, x.call ∈ calls ∧ x.before.identity = identity ∧
      x.before.settings = settings ∧ x.before.queries.Within
        (calls.filterMap (Call.files? identity)).dedup settings.seenCapacity := by
    intro x mem
    obtain ⟨front, rest, split, before⟩ := mem_journal.1 mem
    rw [before]
    refine ⟨split ▸ by simp, setup_run_of_create created fun c mem => known c ?_⟩
    rw [split]
    exact List.mem_append_left _ mem
  refine ⟨held, ?_, ?_, ?_⟩
  · intro x mem unstarted unanswered
    obtain ⟨there, rfl, -, within⟩ := found x mem
    exact peek?_of_other within (known x.call there) room unstarted unanswered
  · intro x mem graph told
    obtain ⟨there, rfl, rfl, within⟩ := found x mem
    exact Entry.working_of_told within (known x.call there) room told
  · intro later' room' once' perm
    refine ⟨_, _, held,
      workingGraph?_of_started created before later' s q framework room' once', fun p => ⟨?_, fun label => ?_⟩,
      fun agree p r => ?_⟩
    · exact Graph.shows_foldl_absorb_perm perm.symm
    · exact Graph.labels_foldl_absorb_perm perm.symm
    · exact Graph.joins_foldl_absorb_perm perm.symm (agree.cons_single _ _)

/-- The graph of a query that was answered once. -/
theorem working_graph_of_answers_once :
    let s : Surroundings := .among ⟨"A"⟩ [⟨"B"⟩]
    let answer : Message := ⟨.zero, [⟨"A"⟩], .complianceResponse (.single ⟨"B"⟩ ["trader"])⟩
    ((fresh ⟨"A"⟩).run [.start s .zero (.comply .trade), .message s none answer]).workingGraph?
        .zero =
      some ((Graph.single ⟨"A"⟩ (Framework.trade.grantedRoles s.oracle).toList).absorb
        (.single ⟨"B"⟩ ["trader"])) := by
  intro s answer
  have created : create (.ofPeers ⟨"A"⟩ []) .standard = .ok (fresh ⟨"A"⟩) := by decide
  have room : (([] ++ Call.start s .zero (.comply .trade) :: [.message s none answer]).filterMap
      (Call.files? (.ofPeers ⟨"A"⟩ []))).dedup.length ≤ Settings.standard.seenCapacity := by decide
  have once : ∀ c ∈ [Call.message s none answer], c.query? ≠ some .zero := by decide
  exact (working_graph_of_answers created room once).1

/-- Two edges whose ends have zero characters in their identifiers pass for one. -/
theorem between_of_zero :
    EdgeId.between ⟨"x"⟩ ⟨"y\x00z"⟩ = EdgeId.between ⟨"x\x00y"⟩ ⟨"z"⟩ := by
  have same : EdgeId.material ⟨"x"⟩ ⟨"y\x00z"⟩ = EdgeId.material ⟨"x\x00y"⟩ ⟨"z"⟩ := by decide
  simp only [EdgeId.between, same]

/-- A query is answered by two graphs, each with one edge. The edges have one identifier, so which of
the two pairs the graph of the query joins depends on the answer that came first. -/
theorem pairs_depend_on_order :
    let s : Surroundings := .among ⟨"A"⟩ [⟨"B"⟩]
    let answer (g : Graph) : Call :=
      .message s (some ⟨"B"⟩) ⟨.zero, [⟨"A"⟩], .complianceResponse g⟩
    let start : Call := .start s .zero (.comply .trade)
    let first := answer ((Graph.single ⟨"x"⟩ []).addEdge ⟨"x"⟩ ⟨"y\x00z"⟩ "P2P")
    let second := answer ((Graph.single ⟨"z"⟩ []).addEdge ⟨"x\x00y"⟩ ⟨"z"⟩ "P2P")
    ∃ g g', ((fresh ⟨"A"⟩).run [start, first, second]).workingGraph? .zero = some g ∧
      ((fresh ⟨"A"⟩).run [start, second, first]).workingGraph? .zero = some g' ∧
      g.Joins ⟨"x"⟩ ⟨"y\x00z"⟩ ∧ ¬ g'.Joins ⟨"x"⟩ ⟨"y\x00z"⟩ := by
  intro s answer start first second
  have created : create (.ofPeers ⟨"A"⟩ []) .standard = .ok (fresh ⟨"A"⟩) := by decide
  have forth := workingGraph?_of_started created [] [first, second] s .zero .trade (by decide)
    (by decide)
  have back := workingGraph?_of_started created [] [second, first] s .zero .trade (by decide)
    (by decide)
  have answers : ∀ g, (answer g).answer? (.ofPeers ⟨"A"⟩ []) .zero = some g := fun _ => by rfl
  simp only [first, second, List.filterMap_cons_some (answers _), List.filterMap_nil,
    List.foldl_cons, List.foldl_nil] at forth back
  refine ⟨_, _, forth, back, ?_, ?_⟩
  · refine ⟨.between ⟨"x"⟩ ⟨"y\x00z"⟩ "P2P", Graph.mem_values.2 ⟨.between ⟨"x"⟩ ⟨"y\x00z"⟩, ?_⟩,
      .inl ⟨rfl, rfl⟩⟩
    simp only [Graph.edges_absorb, Graph.edges_single_addEdge, Graph.edges_single, if_true,
      Option.none_or, Option.some_or]
  · rintro ⟨e, mem, ends⟩
    obtain ⟨id, found⟩ := Graph.mem_values.1 mem
    simp only [Graph.edges_absorb, Graph.edges_single_addEdge, Graph.edges_single, Option.none_or,
      between_of_zero] at found
    split at found
    · rw [Option.some_or, Option.some_inj] at found
      subst found
      simp [Edge.between] at ends
    · cases found

end Engine

end TrustMesh
