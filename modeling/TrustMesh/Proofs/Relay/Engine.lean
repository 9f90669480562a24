import TrustMesh.Proofs.Collection.Recency
import TrustMesh.Proofs.Relay.ReturnPath
import TrustMesh.Relay.Engine

/-!
# What every call of an engine keeps

Whatever an engine is told, its identity and its settings stay, each of its memories is
left alone or stores something under the identifier of the exchange at hand, and every
message that it offers belongs to that exchange (`handle_keeps`, `start_keeps`).

Nothing here depends on which call it is; what a call brings about is stated where it is
needed.
-/

namespace TrustMesh

/-- The bodies that belong to an exchange. -/
def Exchange.Carries : Exchange → Body → Prop
  | .trace target, .traceRequest sought => sought = target
  | .trace target, .traceResponse sought _ => sought = target
  | .gossip members content, .gossip others other _ => others = members ∧ other = content
  | .comply framework, .complianceRequest other => other = framework
  | .comply _, .complianceResponse _ => True
  | _, _ => False

/-- The kinds of message that an exchange consists of. -/
def Exchange.Admits : Exchange → MessageKind → Prop
  | .trace _, .traceRequest => True
  | .trace _, .traceResponse => True
  | .gossip .., .gossip => True
  | .comply _, .complianceRequest => True
  | .comply _, .complianceResponse => True
  | _, _ => False

theorem Exchange.Carries.admits {exchange : Exchange} {body : Body}
    (carried : exchange.Carries body) : exchange.Admits body.kind := by
  cases exchange <;> cases body <;> trivial

/-- A gossip belongs to the exchange of its members and its content. -/
theorem Exchange.Carries.eq_gossip {exchange : Exchange} {members : List PeerId} {content : Json}
    {graph : Graph} (carried : exchange.Carries (.gossip members content graph)) :
    exchange = .gossip members content := by
  cases exchange with
  | gossip others other =>
    obtain ⟨rfl, rfl⟩ := carried
    rfl
  | trace target => exact carried.elim
  | comply framework => exact carried.elim

/-- What belongs to a gossip is that gossip with some graph. -/
theorem Exchange.Carries.exists_graph {members : List PeerId} {content : Json} {body : Body}
    (carried : (Exchange.gossip members content).Carries body) :
    ∃ graph, body = .gossip members content graph := by
  cases body with
  | gossip others other graph =>
    obtain ⟨rfl, rfl⟩ := carried
    exact ⟨graph, rfl⟩
  | _ => exact carried.elim

/-- Every body belongs to some exchange. -/
theorem Body.exists_carries (body : Body) : ∃ exchange : Exchange, exchange.Carries body := by
  cases body with
  | traceRequest target => exact ⟨.trace target, rfl⟩
  | traceResponse target graph => exact ⟨.trace target, rfl⟩
  | gossip members content graph => exact ⟨.gossip members content, rfl, rfl⟩
  | complianceRequest framework => exact ⟨.comply framework, rfl⟩
  | complianceResponse graph => exact ⟨.comply Framework.record.start, trivial⟩

/-- What belongs to one exchange is of the kinds of the same exchanges. -/
theorem Exchange.Admits.of_carries {exchange other : Exchange} {body reply : Body}
    (admits : exchange.Admits body.kind) (carried : other.Carries body)
    (replied : other.Carries reply) : exchange.Admits reply.kind := by
  cases other <;> cases body <;> try exact carried.elim
  all_goals cases reply <;> try exact replied.elim
  all_goals cases exchange <;> exact admits

/-- Whether a body answers a request. -/
def Body.isAnswer : Body → Bool
  | .traceResponse .. => true
  | .complianceResponse .. => true
  | _ => false

namespace Engine

variable {e : Engine} {s : Surroundings} {sender : Option PeerId} {m : Message} {id : MessageId}

/-- The engine after a call that belongs to an exchange: only its memories may differ, and only in
what they store for the exchange. -/
structure Keeps (e : Engine) (id : MessageId) (next : Engine) : Prop where
  identity : next.identity = e.identity
  settings : next.settings = e.settings
  seen : e.seen.entries.Stores id next.seen.entries
  queries : e.queries.Stores id next.queries

theorem Keeps.refl (e : Engine) (id : MessageId) : e.Keeps id e := ⟨rfl, rfl, .inl rfl, .inl rfl⟩

/-- An engine whose memory of exchanges stores something is otherwise the same. -/
theorem keeps_of_seen {seen : SeenCache}
    (stored : ∃ value, seen.entries = e.seen.entries.put id value) :
    e.Keeps id { e with seen } := ⟨rfl, rfl, .inr stored, .inl rfl⟩

theorem keeps_mark (e : Engine) (id : MessageId) :
    e.Keeps id { e with seen := (e.seen.mark id).2 } := keeps_of_seen (e.seen.exists_mark_eq_put id)

/-- A message that is offered while a message is handled belongs to the same exchange, has its route
or the route up to this node, and goes over a channel of the directory. -/
structure Onward (e : Engine) (s : Surroundings) (m : Message) (o : Dispatch) : Prop where
  id : o.message.id = m.id
  route : o.message.route = m.route ∨ o.message.route = m.route ++ [e.primary]
  carried : ∀ exchange : Exchange, exchange.Carries m.body → exchange.Carries o.message.body
  link : ∃ peer, s.directory.resolve peer = some o.link

/-- What is offered while a message is handled is of a kind of its exchange. -/
theorem Onward.admits {o : Dispatch} (onward : e.Onward s m o) {exchange : Exchange}
    (admits : exchange.Admits m.body.kind) : exchange.Admits o.message.body.kind := by
  obtain ⟨other, carried⟩ := m.body.exists_carries
  exact admits.of_carries carried (onward.carried other carried)

theorem mem_address {directory : Directory} {peers : List PeerId} {message : Message}
    {o : Dispatch} (mem : o ∈ address directory peers message) :
    o.message = message ∧ ∃ peer ∈ peers, directory.resolve peer = some o.link := by
  obtain ⟨peer, there, found⟩ := List.mem_filterMap.1 mem
  obtain ⟨link, resolved, rfl⟩ := Option.map_eq_some_iff.1 found
  exact ⟨rfl, peer, there, resolved⟩

/-- A message that is addressed to some peers goes over a channel of the directory. -/
theorem onward_of_mem_address {peers : List PeerId} {message : Message} {o : Dispatch}
    (mem : o ∈ address s.directory peers message) (id : message.id = m.id)
    (route : message.route = m.route ∨ message.route = m.route ++ [e.primary])
    (carried : ∀ exchange : Exchange, exchange.Carries m.body → exchange.Carries message.body) :
    e.Onward s m o := by
  obtain ⟨rfl, peer, -, resolved⟩ := mem_address mem
  exact ⟨id, route, carried, peer, resolved⟩

/-- A response is forwarded over the channel to another peer. -/
theorem usable_of_forward {identity : Identity} {directory : Directory} {link : Link}
    {route : List PeerId} (forward : ReturnHop.ofRoute route identity directory = .forward link) :
    ∃ peer, identity.contains peer = false ∧ directory.resolve peer = some link := by
  obtain ⟨-, i, least, peer, there, resolved⟩ := ReturnHop.forwards_iff.1 forward
  obtain ⟨other, same, foreign, -⟩ := ReturnHop.exists_reached_of_mem_breaks least.1
  cases there.symm.trans same
  exact ⟨peer, foreign, resolved⟩

/-- A response is forwarded over a channel of the directory. -/
theorem resolve_of_forward {identity : Identity} {directory : Directory} {link : Link}
    {route : List PeerId} (forward : ReturnHop.ofRoute route identity directory = .forward link) :
    ∃ peer, directory.resolve peer = some link :=
  (usable_of_forward forward).imp fun _ => And.right

/-! ## Handling messages -/

theorem onTraceRequest_keeps {target : PeerId} :
    e.Keeps m.id (e.onTraceRequest s m target).engine := by
  unfold onTraceRequest
  split
  · exact .refl ..
  · simp only
    split
    · exact keeps_mark ..
    · split
      · split <;> exact keeps_mark ..
      · split <;> exact keeps_mark ..

theorem onTraceResponse_keeps {target : PeerId} {graph : Graph} :
    e.Keeps m.id (e.onTraceResponse s m target graph).engine := by
  unfold onTraceResponse
  split <;> exact .refl ..

theorem onGossip_keeps {members : List PeerId} {content : Json} {graph : Graph} :
    e.Keeps m.id (e.onGossip s sender m members content graph).engine := by
  have kept := keeps_of_seen (e := e) (e.seen.exists_observe_eq_put m.id graph.digest)
  unfold onGossip
  simp only
  split <;> exact kept

theorem admitQuery_keeps (e : Engine) (id : MessageId) : e.Keeps id (e.admitQuery id).2 := by
  unfold admitQuery
  split
  · exact keeps_mark ..
  · exact .refl ..

theorem onComplianceRequest_keeps {framework : Framework} :
    e.Keeps m.id (e.onComplianceRequest s sender m framework).engine := by
  unfold onComplianceRequest
  split
  · exact .refl ..
  · simp only
    split
    · exact admitQuery_keeps ..
    · split <;> exact admitQuery_keeps ..

theorem onComplianceResponse_keeps {graph : Graph} :
    e.Keeps m.id (e.onComplianceResponse s m graph).engine := by
  unfold onComplianceResponse
  split
  · exact ⟨rfl, rfl, .inl rfl, .inr ⟨_, rfl⟩⟩
  · exact .refl ..
  · exact .refl ..

/-- Handling a message keeps all but what is remembered of its exchange. -/
theorem handle_keeps : e.Keeps m.id (e.handle s sender m).engine := by
  unfold handle
  split
  · exact onTraceRequest_keeps
  · exact onTraceResponse_keeps
  · exact onGossip_keeps
  · exact onComplianceRequest_keeps
  · exact onComplianceResponse_keeps

theorem origin_of_deliver {identity : Identity} {directory : Directory} {route : List PeerId}
    (deliver : ReturnHop.ofRoute route identity directory = .deliver) :
    ∃ origin, route.head? = some origin ∧ identity.contains origin = true :=
  ReturnHop.delivers_iff.1 deliver

/-- Only the answer to a query that began here changes the graphs of queries. -/
theorem handle_queries :
    (e.handle s sender m).engine.queries = e.queries ∨
      (∃ graph, m.body = .complianceResponse graph) ∧
        ∃ origin, m.route.head? = some origin ∧ e.identity.contains origin = true := by
  unfold handle
  split
  · refine .inl ?_
    unfold onTraceRequest
    simp only
    repeat' split
    all_goals rfl
  · refine .inl ?_
    unfold onTraceResponse
    split <;> rfl
  · refine .inl ?_
    unfold onGossip
    simp only
    split <;> rfl
  · refine .inl ?_
    have admitted : (e.admitQuery m.id).2.queries = e.queries := by
      unfold admitQuery
      split <;> rfl
    unfold onComplianceRequest
    simp only
    repeat' split
    · rfl
    · exact admitted
    · exact admitted
    · exact admitted
  · rename_i graph body
    unfold onComplianceResponse
    split
    · rename_i deliver
      exact .inr ⟨⟨graph, body⟩, origin_of_deliver deliver⟩
    · exact .inl rfl
    · exact .inl rfl

theorem onTraceRequest_onward {target : PeerId} {o : Dispatch} (body : m.body = .traceRequest target)
    (mem : o ∈ (e.onTraceRequest s m target).offered) : e.Onward s m o := by
  unfold onTraceRequest at mem
  split at mem
  · cases mem
  · simp only at mem
    split at mem
    · cases mem
    · split at mem
      · split at mem
        · cases mem
        · refine onward_of_mem_address mem rfl (.inl rfl) fun exchange carried => ?_
          rw [body] at carried
          cases exchange <;> exact carried
      · split at mem
        · rename_i link found
          cases List.mem_singleton.1 mem
          exact ⟨rfl, .inr rfl, fun _ carried => carried, target, found⟩
        · exact onward_of_mem_address mem rfl (.inr rfl) fun _ carried => carried

theorem forwardBack_onward {link : Link} {o : Dispatch}
    (forward : ReturnHop.ofRoute m.route e.identity s.directory = .forward link)
    (mem : o ∈ (e.forwardBack s m link).offered) : e.Onward s m o := by
  cases List.mem_singleton.1 mem
  exact ⟨rfl, .inl rfl, fun _ carried => carried, resolve_of_forward forward⟩

theorem onTraceResponse_onward {target : PeerId} {graph : Graph} {o : Dispatch}
    (mem : o ∈ (e.onTraceResponse s m target graph).offered) : e.Onward s m o := by
  unfold onTraceResponse at mem
  split at mem
  · cases mem
  · rename_i link forward
    exact forwardBack_onward forward mem
  · cases mem

theorem onGossip_onward {members : List PeerId} {content : Json} {graph : Graph} {o : Dispatch}
    (body : m.body = .gossip members content graph)
    (mem : o ∈ (e.onGossip s sender m members content graph).offered) : e.Onward s m o := by
  unfold onGossip at mem
  simp only at mem
  split at mem
  · cases mem
  · cases mem
  · refine onward_of_mem_address mem rfl (.inr rfl) fun exchange carried => ?_
    rw [body] at carried
    cases exchange <;> exact carried

theorem primary_admitQuery (e : Engine) (id : MessageId) :
    (e.admitQuery id).2.primary = e.primary := by
  rw [primary, primary, (admitQuery_keeps e id).identity]

theorem onComplianceRequest_onward {framework : Framework} {o : Dispatch}
    (body : m.body = .complianceRequest framework)
    (mem : o ∈ (e.onComplianceRequest s sender m framework).offered) : e.Onward s m o := by
  unfold onComplianceRequest at mem
  split at mem
  · cases mem
  · simp only at mem
    split at mem
    · cases mem
    · split at mem
      · cases mem
      · rcases List.mem_append.1 mem with mem | mem
        · refine onward_of_mem_address mem rfl (.inl rfl) fun exchange carried => ?_
          rw [body] at carried
          cases exchange with
          | comply other => trivial
          | trace target => exact carried
          | gossip members content => exact carried
        · refine onward_of_mem_address mem rfl (.inr ?_) fun _ carried => carried
          rw [Message.extended, primary_admitQuery]

theorem onComplianceResponse_onward {graph : Graph} {o : Dispatch}
    (mem : o ∈ (e.onComplianceResponse s m graph).offered) : e.Onward s m o := by
  unfold onComplianceResponse at mem
  split at mem
  · cases mem
  · rename_i link forward
    exact forwardBack_onward forward mem
  · cases mem

/-- Whatever is offered while a message is handled belongs to its exchange. -/
theorem handle_onward {o : Dispatch} (mem : o ∈ (e.handle s sender m).offered) :
    e.Onward s m o := by
  unfold handle at mem
  split at mem
  · rename_i body
    exact onTraceRequest_onward body mem
  · exact onTraceResponse_onward mem
  · rename_i body
    exact onGossip_onward body mem
  · rename_i body
    exact onComplianceRequest_onward body mem
  · exact onComplianceResponse_onward mem

theorem onTraceRequest_quiet {target : PeerId} :
    (e.onTraceRequest s m target).result.event? = none := by
  unfold onTraceRequest
  simp only
  repeat' split
  all_goals rfl

theorem onComplianceRequest_quiet {framework : Framework} :
    (e.onComplianceRequest s sender m framework).result.event? = none := by
  unfold onComplianceRequest
  simp only
  repeat' split
  all_goals rfl

/-- The event of a call belongs to the exchange of the message. -/
theorem handle_event {event : Event} (told : (e.handle s sender m).result.event? = some event) :
    event.id = m.id := by
  unfold handle at told
  split at told
  · rw [onTraceRequest_quiet] at told
    cases told
  · unfold onTraceResponse at told
    split at told
    · cases told
      rfl
    · cases told
    · cases told
  · unfold onGossip at told
    simp only at told
    split at told
    · cases told
    · cases told
      rfl
    · cases told
      rfl
  · rw [onComplianceRequest_quiet] at told
    cases told
  · unfold onComplianceResponse at told
    split at told
    · cases told
      rfl
    · cases told
    · cases told

/-- Where an exchange began, an answer becomes an event. -/
theorem handle_of_deliver (answer : m.body.isAnswer = true)
    (deliver : ReturnHop.ofRoute m.route e.identity s.directory = .deliver) :
    (e.handle s sender m).offered = [] ∧ (e.handle s sender m).engine.seen = e.seen ∧
      ∃ event, (e.handle s sender m).result.event? = some event := by
  cases body : m.body with
  | traceResponse target graph =>
    simp only [handle, body, onTraceResponse, deliver]
    exact ⟨rfl, rfl, _, rfl⟩
  | complianceResponse graph =>
    simp only [handle, body, onComplianceResponse, deliver]
    exact ⟨rfl, rfl, _, rfl⟩
  | _ =>
    rw [body] at answer
    cases answer

/-- Elsewhere, an answer goes on as it is. -/
theorem handle_of_forward {link : Link} (answer : m.body.isAnswer = true)
    (forward : ReturnHop.ofRoute m.route e.identity s.directory = .forward link) :
    (e.handle s sender m).offered = [⟨link, m⟩] ∧ (e.handle s sender m).engine.seen = e.seen ∧
      (e.handle s sender m).result.event? = none := by
  cases body : m.body with
  | traceResponse target graph =>
    simp only [handle, body, onTraceResponse, forward]
    exact ⟨rfl, rfl, rfl⟩
  | complianceResponse graph =>
    simp only [handle, body, onComplianceResponse, forward]
    exact ⟨rfl, rfl, rfl⟩
  | _ =>
    rw [body] at answer
    cases answer

/-- A gossip that is new is shown, with the peer that it came from added to its graph, and passed on
to the members other than that peer and this node. -/
theorem handle_of_new_gossip (s : Surroundings) (sender : Option PeerId)
    {members : List PeerId} {content : Json} {graph : Graph}
    (body : m.body = .gossip members content graph) (new : e.seen.contains m.id = false) :
    let source := sender.or m.previousHop?
    let grown := e.observeSender s.directory graph source
    (e.handle s sender m).result.event? =
        some (.gossipReceived m.id content members (e.localize grown) source) ∧
      (e.handle s sender m).offered = address s.directory
        (members.filter fun peer => !e.identity.contains peer && some peer ≠ source)
        ⟨m.id, m.route ++ [e.primary], .gossip members content grown⟩ := by
  have first : (e.seen.observe m.id graph.digest).1 = .first := SeenCache.observe_fst_eq_first.2 new
  simp only [handle, body, onGossip, first]
  exact ⟨rfl, rfl⟩

/-! ## Starting exchanges -/

/-- Starting an exchange keeps all but what is remembered of it. -/
theorem start_keeps {exchange : Exchange} : e.Keeps id (e.start s id exchange).engine := by
  cases exchange with
  | trace target => exact keeps_mark ..
  | gossip members content => exact keeps_of_seen (e.seen.exists_observe_eq_put ..)
  | comply framework =>
    obtain ⟨identity, settings, seen, queries⟩ := admitQuery_keeps e id
    refine ⟨identity, settings, seen, ?_⟩
    exact .inr ⟨_, rfl⟩

/-- Only a compliance query that is started gets a graph. -/
theorem start_queries {exchange : Exchange} (other : ∀ framework, exchange ≠ .comply framework) :
    (e.start s id exchange).engine.queries = e.queries := by
  cases exchange with
  | trace target => rfl
  | gossip members content => rfl
  | comply framework => exact absurd rfl (other framework)

/-- What is offered when an exchange is started belongs to it and has this node for its route. -/
theorem start_offers {exchange : Exchange} {o : Dispatch}
    (mem : o ∈ (e.start s id exchange).offered) :
    o.message.id = id ∧ o.message.route = [e.primary] ∧ exchange.Carries o.message.body ∧
      ∃ peer, s.directory.resolve peer = some o.link := by
  have addressed : ∀ {peers : List PeerId} {message : Message},
      o ∈ address s.directory peers message → message.id = id → message.route = [e.primary] →
      exchange.Carries message.body →
      o.message.id = id ∧ o.message.route = [e.primary] ∧ exchange.Carries o.message.body ∧
        ∃ peer, s.directory.resolve peer = some o.link := by
    intro peers message mem own route carried
    obtain ⟨rfl, peer, -, resolved⟩ := mem_address mem
    exact ⟨own, route, carried, peer, resolved⟩
  cases exchange with
  | trace target =>
    simp only [start, startTrace] at mem
    split at mem
    · rename_i link found
      cases List.mem_singleton.1 mem
      exact ⟨rfl, rfl, rfl, target, found⟩
    · exact addressed mem rfl rfl rfl
  | gossip members content => exact addressed mem rfl rfl ⟨rfl, rfl⟩
  | comply framework => exact addressed mem rfl rfl rfl

end Engine

end TrustMesh
