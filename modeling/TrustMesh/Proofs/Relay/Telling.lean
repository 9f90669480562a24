import TrustMesh.Proofs.Relay.Journal

/-!
# What an engine tells

Four kinds of message become events, which `Engine.Tells` lists, each with the picture of
the mesh that it is about: the graph of the event before the identifiers of the node are
read as `me`. Nothing else is told (`handle_tells`).

Where an exchange began is decided by the route of an answer alone
(`ofRoute_eq_deliver_iff`).
-/

namespace TrustMesh

/-- Whether the route of a message begins with an identifier of a peer. -/
def Message.beginsAt (m : Message) (identity : Identity) : Bool :=
  m.route.head?.any identity.contains

theorem Message.beginsAt_iff {m : Message} {identity : Identity} :
    m.beginsAt identity = true ↔
      ∃ origin, m.route.head? = some origin ∧ identity.contains origin = true :=
  Option.any_eq_true ..

/-- An answer is delivered exactly where its route begins. -/
theorem ReturnHop.ofRoute_eq_deliver_iff {m : Message} {identity : Identity}
    {directory : Directory} :
    ofRoute m.route identity directory = .deliver ↔ m.beginsAt identity = true := by
  rw [Message.beginsAt_iff]
  exact delivers_iff

namespace Engine

variable {e : Engine} {s : Surroundings} {sender : Option PeerId} {m : Message} {event : Event}
  {picture : Graph}

/-- The graph of a query after an answer to it. -/
def absorbed (e : Engine) (id : MessageId) (answer : Graph) : Graph :=
  match e.queries.peek? id with
  | some working => working.absorb answer
  | none => answer

/-- The event that a message becomes, with the picture that it is about. -/
inductive Tells (e : Engine) (s : Surroundings) (sender : Option PeerId) (m : Message) :
    Graph → Event → Prop where
  | found {target : PeerId} {graph : Graph} (body : m.body = .traceResponse target graph)
      (begins : m.beginsAt e.identity = true) :
      Tells e s sender m (addPath e.settings.linkLabel graph (m.route ++ [target]))
        (.routeDiscovered m.id target ((m.route ++ [target]).drop 1)
          (e.localize (addPath e.settings.linkLabel graph (m.route ++ [target]))))
  | received {members : List PeerId} {content : Json} {graph : Graph}
      (body : m.body = .gossip members content graph) (new : e.seen.contains m.id = false) :
      Tells e s sender m (e.observeSender s.directory graph (sender.or m.previousHop?))
        (.gossipReceived m.id content members
          (e.localize (e.observeSender s.directory graph (sender.or m.previousHop?)))
          (sender.or m.previousHop?))
  | changed {members : List PeerId} {content : Json} {graph : Graph}
      (body : m.body = .gossip members content graph) (known : e.seen.contains m.id = true) :
      Tells e s sender m graph (.graphUpdated m.id (e.localize graph))
  | answered {graph : Graph} (body : m.body = .complianceResponse graph)
      (begins : m.beginsAt e.identity = true) :
      Tells e s sender m (e.absorbed m.id graph)
        (.complianceUpdated m.id (e.localize (e.absorbed m.id graph)))

/-- Whatever is told while a message is handled is told in one of the four ways. -/
theorem handle_tells (told : (e.handle s sender m).result.event? = some event) :
    ∃ picture, e.Tells s sender m picture event := by
  unfold handle at told
  split at told
  · rw [onTraceRequest_quiet] at told
    cases told
  · rename_i target graph body
    unfold onTraceResponse at told
    split at told
    · rename_i deliver
      cases told
      exact ⟨_, .found body (ReturnHop.ofRoute_eq_deliver_iff.1 deliver)⟩
    · cases told
    · cases told
  · rename_i members content graph body
    unfold onGossip at told
    simp only at told
    split at told
    · cases told
    · rename_i changed
      cases told
      refine ⟨_, .changed body (Bool.not_eq_false _ |>.mp fun new => ?_)⟩
      rw [SeenCache.observe_fst_eq_first.2 new] at changed
      cases changed
    · rename_i first
      cases told
      exact ⟨_, .received body (SeenCache.observe_fst_eq_first.1 first)⟩
  · rw [onComplianceRequest_quiet] at told
    cases told
  · rename_i graph body
    unfold onComplianceResponse at told
    split at told
    · rename_i deliver
      cases told
      exact ⟨_, .answered body (ReturnHop.ofRoute_eq_deliver_iff.1 deliver)⟩
    · cases told
    · cases told

/-- The graph of an event is the picture as the application sees it. -/
theorem Tells.graph (tells : e.Tells s sender m picture event) :
    event.graph = e.localize picture := by
  cases tells <;> rfl

/-- The answer to a search is shown where the search began. -/
theorem handle_of_found {target : PeerId} {graph : Graph}
    (body : m.body = .traceResponse target graph) (begins : m.beginsAt e.identity = true) :
    (e.handle s sender m).result.event? = some (.routeDiscovered m.id target
      ((m.route ++ [target]).drop 1)
      (e.localize (addPath e.settings.linkLabel graph (m.route ++ [target])))) := by
  have deliver : ReturnHop.ofRoute m.route e.identity s.directory = .deliver :=
    ReturnHop.ofRoute_eq_deliver_iff.2 begins
  simp only [handle, body, onTraceResponse, deliver]
  rfl

/-- The answer to a query is absorbed and shown where the query began. -/
theorem handle_of_answered {graph : Graph} (body : m.body = .complianceResponse graph)
    (begins : m.beginsAt e.identity = true) :
    (e.handle s sender m).engine.queries = e.queries.put m.id (e.absorbed m.id graph) ∧
      (e.handle s sender m).result.event? =
        some (.complianceUpdated m.id (e.localize (e.absorbed m.id graph))) := by
  have deliver : ReturnHop.ofRoute m.route e.identity s.directory = .deliver :=
    ReturnHop.ofRoute_eq_deliver_iff.2 begins
  simp only [handle, body, onComplianceResponse, deliver]
  exact ⟨rfl, rfl⟩

/-! ## Entries of a journal -/

/-- What a call tells it tells of the message that it delivers. -/
theorem Entry.tells {x : Entry} (told : x.event? = some event) :
    ∃ m s sender picture, x.call.message? = some m ∧ x.before.Tells s sender m picture event := by
  rcases x.call.sorts with ⟨m, delivered⟩ | ⟨id, exchange, starts⟩ | silent
  · obtain ⟨s, sender, same⟩ := perform_of_message? (e := x.before) delivered
    rw [Entry.event?, Entry.outcome?, Entry.step, same] at told
    obtain ⟨picture, tells⟩ := handle_tells told
    exact ⟨m, s, sender, picture, delivered, tells⟩
  · obtain ⟨s, same⟩ := Call.eq_start_of_started? starts
    rw [Entry.event?, Entry.outcome?, Entry.step, same] at told
    cases told
  · rw [Entry.event?, Entry.outcome?, Entry.step, perform_of_silent silent] at told
    cases told

/-- The event of a call that delivers a message is that of handling the message. -/
theorem Entry.event?_of_message? {x : Entry} (delivered : x.call.message? = some m) :
    ∃ s sender, x.event? = (x.before.handle s sender m).result.event? := by
  obtain ⟨s, sender, same⟩ := perform_of_message? (e := x.before) delivered
  refine ⟨s, sender, ?_⟩
  rw [Entry.event?, Entry.outcome?, Entry.step, same]
  rfl

end Engine

end TrustMesh
