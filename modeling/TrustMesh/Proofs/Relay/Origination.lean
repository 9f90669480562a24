import TrustMesh.Proofs.Relay.Passing
import TrustMesh.Proofs.Relay.Telling

/-!
# Events for exchanges that began here

A peer keeps no record of the searches and queries that it started: an answer is taken to
be for the peer that its route begins with. So an answer that nobody asked for is shown as
well (`Engine.shows_unasked_answers`).

Where each answer answers a message that the engine offered, and each request has passed
some peer, every answer that is shown belongs to an exchange that was started before
(`Engine.tells_of_answers`): a request whose route begins with an identifier of the engine
is one that it started, since it passes on none that passed it already.
-/

namespace TrustMesh

/-- Whether a body answers another one: a search for the same peer, or a query. -/
def Body.Answers : Body → Body → Prop
  | .traceResponse target _, .traceRequest sought => sought = target
  | .complianceResponse _, .complianceRequest _ => True
  | _, _ => False

/-- What is answered by a path to a peer is a search for the peer. -/
theorem Body.Answers.eq_trace {target : PeerId} {graph : Graph} {asked : Body} {exchange : Exchange}
    (answers : (Body.traceResponse target graph).Answers asked) (carried : exchange.Carries asked) :
    exchange = .trace target := by
  cases asked <;> try exact answers.elim
  cases exchange <;> try exact carried.elim
  rename_i sought own
  exact congrArg Exchange.trace (carried.symm.trans answers)

/-- What is answered by the graph of a peer is a query. -/
theorem Body.Answers.exists_comply {graph : Graph} {asked : Body} {exchange : Exchange}
    (answers : (Body.complianceResponse graph).Answers asked) (carried : exchange.Carries asked) :
    ∃ framework, exchange = .comply framework := by
  cases asked <;> try exact answers.elim
  cases exchange <;> try exact carried.elim
  exact ⟨_, rfl⟩

namespace Engine

/-- A call that started an exchange and returned its identifier. -/
def Entry.Started (x : Entry) (id : MessageId) (exchange : Exchange) : Prop :=
  ∃ s sent, x.call = .start s id exchange ∧ x.step.result = .started ⟨id, sent⟩

/-- Calls that deliver what an honest mesh delivers: requests that passed some peer, and to the peer
that began an exchange only answers to what it offered. -/
structure Solicited (e : Engine) (calls : List Call) : Prop where
  routed : ∀ c ∈ calls, ∀ m, c.message? = some m → m.body.kind.isRequest = true → m.route ≠ []
  asked : ∀ front c rest m, calls = front ++ c :: rest → c.message? = some m →
    m.body.kind.isAnswer = true → m.beginsAt e.identity = true →
      ∃ x ∈ e.journal front, ∃ o ∈ x.offered,
        o.message.id = m.id ∧ o.message.beginsAt e.identity = true ∧
          m.body.Answers o.message.body

variable {e : Engine} {s : Surroundings} {sender : Option PeerId} {m : Message} {id : MessageId}
  {c : Call} {calls front : List Call} {x : Entry} {o : Dispatch}

/-! ## One call -/

/-- A request that is offered while a message is handled begins with this node only if the message
has not passed any peer. -/
theorem route_of_offered (mem : o ∈ (e.handle s sender m).offered)
    (asks : o.message.body.kind.isRequest = true)
    (begins : o.message.beginsAt e.identity = true) :
    m.body.kind.isRequest = true ∧ m.route = [] := by
  cases handle_passes mem with
  | onward asked unpassed longer known =>
    refine ⟨asked, ?_⟩
    obtain ⟨origin, first, own⟩ := Message.beginsAt_iff.1 begins
    cases route : m.route with
    | nil => rfl
    | cons hop rest =>
      rw [longer, Message.extended, route] at first
      cases first
      have passed : e.onRoute m = true :=
        List.any_eq_true.2 ⟨_, route ▸ List.mem_cons_self .., own⟩
      rw [unpassed.foreign] at passed
      cases passed
  | answer _ _ replies _ _ =>
    rw [MessageKind.isAnswer_of_isRequest asks] at replies
    cases replies
  | back answers same _ =>
    rw [← same, MessageKind.isAnswer_of_isRequest asks] at answers
    cases answers
  | spread _ _ copies _ =>
    rw [copies] at asks
    cases asks

/-- A request that begins with this node was started by the call that offered it. -/
theorem Entry.started_of_offered
    (routed : ∀ m, x.call.message? = some m → m.body.kind.isRequest = true → m.route ≠ [])
    (mem : o ∈ x.offered) (asks : o.message.body.kind.isRequest = true)
    (begins : o.message.beginsAt x.before.identity = true) :
    ∃ exchange : Exchange, exchange.Carries o.message.body ∧
      x.Started o.message.id exchange := by
  rcases x.call.sorts with ⟨m, delivered⟩ | ⟨id, exchange, starts⟩ | silent
  · obtain ⟨s, sender, same⟩ := perform_of_message? (e := x.before) delivered
    rw [Entry.offered, Entry.step, same] at mem
    obtain ⟨asked, route⟩ := route_of_offered mem asks begins
    exact absurd route (routed m delivered asked)
  · obtain ⟨s, same⟩ := Call.eq_start_of_started? starts
    rw [Entry.offered, Entry.step, same] at mem
    obtain ⟨rfl, -, carried, -⟩ := start_offers mem
    refine ⟨exchange, carried, s, (x.before.start s o.message.id exchange).result.sent, same, ?_⟩
    rw [Entry.step, same]
    cases exchange <;> rfl
  · rw [Entry.offered, Entry.step, perform_of_silent silent] at mem
    cases mem

/-- A search or a query that is answered was started before. -/
theorem started_of_asked (solicited : e.Solicited (front ++ [c])) (delivered : c.message? = some m)
    (answer : m.body.kind.isAnswer = true) (begins : m.beginsAt e.identity = true) :
    ∃ x ∈ e.journal front, ∃ (exchange : Exchange) (body : Body),
      m.body.Answers body ∧ exchange.Carries body ∧ x.Started m.id exchange := by
  obtain ⟨x, mem, o, offered, same, began, answers⟩ :=
    solicited.asked front c [] m rfl delivered answer begins
  obtain ⟨earlier, rest, rfl, before⟩ := mem_journal.1 mem
  have asks : o.message.body.kind.isRequest = true := by
    revert answers
    cases m.body <;> cases o.message.body <;> simp [Body.Answers, Body.kind, MessageKind.isRequest]
  have identity : x.before.identity = e.identity := by rw [before, (run_setup e earlier).1]
  obtain ⟨exchange, carried, started⟩ := Entry.started_of_offered
    (fun m => solicited.routed x.call (by simp) m) offered asks (identity ▸ began)
  exact ⟨x, mem, exchange, _, answers, carried, same ▸ started⟩

/-! ## Any number of calls -/

/-- Where a search or a query began is decided by the route of its answer, and nothing else: a call
tells of a route to a peer exactly if it delivers the answer to a search for that peer whose route
begins here, and of a query exactly if it delivers an answer whose route begins here. If answers come
only to what the engine offered and requests only from other peers, the engine started the search for
that peer, or the query, before. -/
theorem tells_of_answers (e : Engine) (front : List Call) (c : Call) (id : MessageId) :
    (∀ target, (∃ route graph, (Entry.mk (e.run front) c).event? =
        some (.routeDiscovered id target route graph)) ↔
      ∃ m graph, c.message? = some m ∧ m.id = id ∧ m.body = .traceResponse target graph ∧
        m.beginsAt e.identity = true) ∧
    ((∃ graph, (Entry.mk (e.run front) c).event? = some (.complianceUpdated id graph)) ↔
      ∃ m graph, c.message? = some m ∧ m.id = id ∧ m.body = .complianceResponse graph ∧
        m.beginsAt e.identity = true) ∧
    (e.Solicited (front ++ [c]) →
      (∀ target route graph, (Entry.mk (e.run front) c).event? =
          some (.routeDiscovered id target route graph) →
        ∃ x ∈ e.journal front, x.Started id (.trace target)) ∧
      ∀ graph, (Entry.mk (e.run front) c).event? = some (.complianceUpdated id graph) →
        ∃ x ∈ e.journal front, ∃ framework, x.Started id (.comply framework)) := by
  have identity : (e.run front).identity = e.identity := (run_setup e front).1
  have found : ∀ target route graph, (Entry.mk (e.run front) c).event? =
      some (.routeDiscovered id target route graph) →
        ∃ m graph, c.message? = some m ∧ m.id = id ∧ m.body = .traceResponse target graph ∧
          m.beginsAt e.identity = true := by
    intro target route graph told
    obtain ⟨m, s, sender, picture, delivered, tells⟩ := Entry.tells told
    cases tells with
    | found body begins => exact ⟨m, _, delivered, rfl, body, identity ▸ begins⟩
  have answered : ∀ graph, (Entry.mk (e.run front) c).event? = some (.complianceUpdated id graph) →
      ∃ m graph, c.message? = some m ∧ m.id = id ∧ m.body = .complianceResponse graph ∧
        m.beginsAt e.identity = true := by
    intro graph told
    obtain ⟨m, s, sender, picture, delivered, tells⟩ := Entry.tells told
    cases tells with
    | answered body begins => exact ⟨m, _, delivered, rfl, body, identity ▸ begins⟩
  refine ⟨fun target => ⟨?_, ?_⟩, ⟨?_, ?_⟩, fun solicited => ⟨?_, ?_⟩⟩
  · rintro ⟨route, graph, told⟩
    exact found target route graph told
  · rintro ⟨m, graph, delivered, rfl, body, begins⟩
    obtain ⟨s, sender, told⟩ := Entry.event?_of_message? (x := ⟨e.run front, c⟩) delivered
    exact ⟨_, _, told.trans (handle_of_found body (identity.symm ▸ begins))⟩
  · rintro ⟨graph, told⟩
    exact answered graph told
  · rintro ⟨m, graph, delivered, rfl, body, begins⟩
    obtain ⟨s, sender, told⟩ := Entry.event?_of_message? (x := ⟨e.run front, c⟩) delivered
    exact ⟨_, told.trans (handle_of_answered body (identity.symm ▸ begins)).2⟩
  · intro target route graph told
    obtain ⟨m, graph, delivered, rfl, body, begins⟩ := found target route graph told
    obtain ⟨x, mem, exchange, asked, answers, carried, started⟩ :=
      started_of_asked solicited delivered (by rw [body]; rfl) begins
    rw [body] at answers
    exact ⟨x, mem, answers.eq_trace carried ▸ started⟩
  · intro graph told
    obtain ⟨m, graph, delivered, rfl, body, begins⟩ := answered graph told
    obtain ⟨x, mem, exchange, asked, answers, carried, started⟩ :=
      started_of_asked solicited delivered (by rw [body]; rfl) begins
    rw [body] at answers
    obtain ⟨framework, rfl⟩ := answers.exists_comply carried
    exact ⟨x, mem, framework, started⟩

/-- A peer that searched for its neighbour and is answered by it is told of the route, for a search
that it started. -/
theorem tells_of_answers_neighbour :
    let s : Surroundings := .among ⟨"A"⟩ [⟨"B"⟩]
    let front : List Call := [.start s .zero (.trace ⟨"B"⟩)]
    let answer : Call :=
      .message s (some ⟨"B"⟩) ⟨.zero, [⟨"A"⟩], .traceResponse ⟨"B"⟩ (.single ⟨"B"⟩ [])⟩
    (fresh ⟨"A"⟩).Solicited (front ++ [answer]) ∧
      (∃ route graph, (Entry.mk ((fresh ⟨"A"⟩).run front) answer).event? =
        some (.routeDiscovered .zero ⟨"B"⟩ route graph)) ∧
      ∃ x ∈ (fresh ⟨"A"⟩).journal front, x.Started .zero (.trace ⟨"B"⟩) := by
  intro s front answer
  have solicited : (fresh ⟨"A"⟩).Solicited (front ++ [answer]) := by
    constructor
    · intro c mem m delivered asks
      simp only [front, answer, List.mem_append, List.mem_singleton] at mem
      rcases mem with rfl | rfl
      · cases delivered
      · cases delivered
        cases asks
    · intro earlier c rest m split delivered _ _
      match earlier, split with
      | [], split =>
        cases split
        cases delivered
      | [first], split =>
        cases split
        cases delivered
        refine ⟨_, List.mem_singleton_self _,
          ⟨⟨⟨"A"⟩, ⟨"B"⟩⟩, ⟨.zero, [⟨"A"⟩], .traceRequest ⟨"B"⟩⟩⟩, ?_, rfl, by decide, rfl⟩
        exact List.mem_singleton.2 rfl
      | _ :: _ :: _, split => simp [front] at split
  have told := tells_of_answers (fresh ⟨"A"⟩) front answer .zero
  obtain ⟨route, graph, shown⟩ := (told.1 ⟨"B"⟩).2 ⟨_, _, rfl, rfl, rfl, by decide⟩
  exact ⟨solicited, ⟨route, graph, shown⟩, (told.2.2 solicited).1 ⟨"B"⟩ route graph shown⟩

/-- A peer that started nothing is handed an answer to a search and an answer to a query, and tells
of both. -/
theorem shows_unasked_answers :
    let s : Surroundings := .among ⟨"A"⟩ [⟨"B"⟩]
    let path : Message := ⟨.ofNat 1, [⟨"A"⟩], .traceResponse ⟨"B"⟩ (.single ⟨"B"⟩ [])⟩
    let roles : Message := ⟨.ofNat 2, [⟨"A"⟩], .complianceResponse (.single ⟨"B"⟩ [])⟩
    let calls : List Call := [.message s (some ⟨"B"⟩) path, .message s (some ⟨"B"⟩) roles]
    create (.ofPeers ⟨"A"⟩ []) .standard = .ok (fresh ⟨"A"⟩) ∧
      (∀ c ∈ calls, c.started? = none) ∧
      (∃ x ∈ (fresh ⟨"A"⟩).journal calls, ∃ route graph,
        x.event? = some (.routeDiscovered (.ofNat 1) ⟨"B"⟩ route graph)) ∧
      ∃ x ∈ (fresh ⟨"A"⟩).journal calls, ∃ graph,
        x.event? = some (.complianceUpdated (.ofNat 2) graph) := by
  intro s path roles calls
  have found : ∃ route graph, ((fresh ⟨"A"⟩).handle s (some ⟨"B"⟩) path).result.event? =
      some (.routeDiscovered (.ofNat 1) ⟨"B"⟩ route graph) :=
    ⟨_, _, handle_of_found rfl (by decide)⟩
  have answered : ∃ graph, ((fresh ⟨"A"⟩).handle s (some ⟨"B"⟩) roles).result.event? =
      some (.complianceUpdated (.ofNat 2) graph) :=
    ⟨_, (handle_of_answered rfl (by decide)).2⟩
  exact ⟨by decide, by decide, ⟨_, List.mem_cons_self .., found⟩,
    ⟨_, List.mem_cons_of_mem _ (List.mem_cons_self ..), answered⟩⟩

end Engine

end TrustMesh
