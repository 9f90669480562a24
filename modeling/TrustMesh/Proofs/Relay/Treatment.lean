import TrustMesh.Proofs.Relay.Engine

/-!
# All that is made of a message

`Engine.Treats` lists what an engine can make of a message: the outcome and everything that
is offered, with the conditions under which it comes about. `Engine.handle_treats` states
that the list is complete, so what holds of every offer is a case analysis on it.

What the engine remembers afterwards is stated elsewhere.
-/

namespace TrustMesh

/-- Whether messages of a kind ask for answers. -/
def MessageKind.isRequest : MessageKind → Bool
  | .traceRequest => true
  | .complianceRequest => true
  | _ => false

/-- Whether messages of a kind answer requests. -/
def MessageKind.isAnswer : MessageKind → Bool
  | .traceResponse => true
  | .complianceResponse => true
  | _ => false

namespace Engine

variable {e : Engine} {s : Surroundings} {sender : Option PeerId} {m : Message}
  {outcome : Outcome} {offered : List Dispatch}

/-- A message whose route repeats no peer and has not passed this node. -/
structure Unpassed (e : Engine) (m : Message) : Prop where
  straight : m.hasLoop = false
  foreign : e.onRoute m = false

theorem unpassed_of_not {e : Engine} {m : Message}
    (passable : ¬ (m.hasLoop || e.onRoute m) = true) : e.Unpassed m := by
  rw [Bool.or_eq_true, not_or] at passable
  exact ⟨Bool.eq_false_iff.2 passable.1, Bool.eq_false_iff.2 passable.2⟩

theorem Unpassed.passable (unpassed : e.Unpassed m) : ¬ (m.hasLoop || e.onRoute m) = true := by
  simp [unpassed.straight, unpassed.foreign]

/-- Whether a message has passed a node depends on who the node is only. -/
theorem Unpassed.of_identity {other : Engine} (unpassed : e.Unpassed m)
    (same : other.identity = e.identity) : other.Unpassed m :=
  ⟨unpassed.straight, by rw [onRoute, same]; exact unpassed.foreign⟩

/-- The answer of a node to a compliance query of a peer: the roles that it is granted, and its link to
the peer. -/
def grantGraph (e : Engine) (s : Surroundings) (framework : Framework) (peer : PeerId) : Graph :=
  (Graph.single e.primary (framework.grantedRoles s.oracle).toList).addEdge e.primary peer
    e.settings.linkLabel

/-- What an engine makes of a message: the outcome and what is offered. -/
inductive Treats (e : Engine) (s : Surroundings) (sender : Option PeerId) (m : Message) :
    Outcome → List Dispatch → Prop where
  | drop (reason : DropReason) : Treats e s sender m (.dropped reason) []
  | tell (event : Event) (told : m.body.kind.isRequest = false) :
      Treats e s sender m (.handled [] (some event)) []
  | found {target previous : PeerId} (asks : m.body = .traceRequest target)
      (unpassed : e.Unpassed m) (own : e.identity.contains target = true)
      (last : m.previousHop? = some previous) {offered : List Dispatch}
      (offers : offered = address s.directory [previous]
        (m.reply (.traceResponse target (.single target [])))) :
      Treats e s sender m (handled s offered none) offered
  | straight {target : PeerId} {link : Link} (asks : m.body = .traceRequest target)
      (unpassed : e.Unpassed m) (foreign : e.identity.contains target = false)
      (resolved : s.directory.resolve target = some link) :
      Treats e s sender m (handled s [⟨link, m.extended e.primary⟩] none)
        [⟨link, m.extended e.primary⟩]
  | search {target : PeerId} (asks : m.body = .traceRequest target) (unpassed : e.Unpassed m)
      (foreign : e.identity.contains target = false) (unknown : s.directory.resolve target = none)
      {offered : List Dispatch}
      (offers : offered = address s.directory (e.floodTargets s.directory m none)
        (m.extended e.primary)) :
      Treats e s sender m (handled s offered none) offered
  | back {link : Link} (answers : m.body.kind.isAnswer = true)
      (forward : ReturnHop.ofRoute m.route e.identity s.directory = .forward link) :
      Treats e s sender m (handled s [⟨link, m⟩] none) [⟨link, m⟩]
  | spread {members : List PeerId} {content : Json} {graph : Graph} {event : Event}
      (gossip : m.body = .gossip members content graph) (new : e.seen.contains m.id = false)
      {offered : List Dispatch}
      (offers : offered = address s.directory
        (members.filter fun peer => !e.identity.contains peer && some peer ≠ sender.or m.previousHop?)
        ⟨m.id, m.route ++ [e.primary], .gossip members content
          (e.observeSender s.directory graph (sender.or m.previousHop?))⟩) :
      Treats e s sender m (handled s offered (some event)) offered
  | query {framework : Framework} {peer : PeerId} (asks : m.body = .complianceRequest framework)
      (unpassed : e.Unpassed m) (known : sender.or m.previousHop? = some peer)
      {offered : List Dispatch}
      (offers : offered =
        address s.directory [peer] (m.reply (.complianceResponse (e.grantGraph s framework peer))) ++
          address s.directory (e.floodTargets s.directory m (some peer)) (m.extended e.primary)) :
      Treats e s sender m (handled s offered none) offered

theorem onTraceRequest_treats {target : PeerId} (asks : m.body = .traceRequest target) :
    e.Treats s sender m (e.onTraceRequest s m target).result
      (e.onTraceRequest s m target).offered := by
  unfold onTraceRequest
  split
  · exact .drop _
  · rename_i passable
    have unpassed := unpassed_of_not passable
    simp only
    split
    · exact .drop _
    · split
      · rename_i own
        split
        · exact .drop _
        · rename_i previous last
          exact .found asks unpassed own last rfl
      · rename_i foreign
        split
        · rename_i link resolved
          exact .straight asks unpassed (Bool.eq_false_iff.2 foreign) resolved
        · rename_i unknown
          exact .search asks unpassed (Bool.eq_false_iff.2 foreign) unknown rfl

theorem onTraceResponse_treats {target : PeerId} {graph : Graph}
    (answers : m.body = .traceResponse target graph) :
    e.Treats s sender m (e.onTraceResponse s m target graph).result
      (e.onTraceResponse s m target graph).offered := by
  unfold onTraceResponse
  split
  · exact .tell _ (by rw [answers]; rfl)
  · rename_i link forward
    exact .back (by rw [answers]; rfl) forward
  · exact .drop _

theorem onGossip_treats {members : List PeerId} {content : Json} {graph : Graph}
    (gossip : m.body = .gossip members content graph) :
    e.Treats s sender m (e.onGossip s sender m members content graph).result
      (e.onGossip s sender m members content graph).offered := by
  unfold onGossip
  simp only
  split
  · exact .drop _
  · exact .tell _ (by rw [gossip]; rfl)
  · rename_i first
    exact .spread gossip (SeenCache.observe_fst_eq_first.1 first) rfl

theorem onComplianceRequest_treats {framework : Framework}
    (asks : m.body = .complianceRequest framework) :
    e.Treats s sender m (e.onComplianceRequest s sender m framework).result
      (e.onComplianceRequest s sender m framework).offered := by
  unfold onComplianceRequest
  split
  · exact .drop _
  · rename_i passable
    have unpassed := unpassed_of_not passable
    have kept := admitQuery_keeps e m.id
    simp only
    split
    · exact .drop _
    · split
      · exact .drop _
      · rename_i peer known
        refine .query asks unpassed known ?_
        simp only [floodTargets, primary, grantGraph, kept.identity, kept.settings]
        rfl

theorem onComplianceResponse_treats {graph : Graph} (answers : m.body = .complianceResponse graph) :
    e.Treats s sender m (e.onComplianceResponse s m graph).result
      (e.onComplianceResponse s m graph).offered := by
  unfold onComplianceResponse
  split
  · exact .tell _ (by rw [answers]; rfl)
  · rename_i link forward
    exact .back (by rw [answers]; rfl) forward
  · exact .drop _

/-- Every message is treated in one of these ways. -/
theorem handle_treats (e : Engine) (s : Surroundings) (sender : Option PeerId) (m : Message) :
    e.Treats s sender m (e.handle s sender m).result (e.handle s sender m).offered := by
  unfold handle
  split
  · rename_i body
    exact onTraceRequest_treats body
  · rename_i body
    exact onTraceResponse_treats body
  · rename_i body
    exact onGossip_treats body
  · rename_i body
    exact onComplianceRequest_treats body
  · rename_i body
    exact onComplianceResponse_treats body

/-- The recipients of a message are the peers that accept what is offered, in order. -/
theorem Treats.recipients (treats : e.Treats s sender m outcome offered) :
    outcome.recipients = s.directory.recipients offered := by
  cases treats <;> rfl

end Engine

end TrustMesh
