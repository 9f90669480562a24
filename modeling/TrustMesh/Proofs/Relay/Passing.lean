import TrustMesh.Proofs.Relay.Treatment

/-!
# What a message leads to

A message that is handled leads to others in four ways, which `Engine.Passes` lists: a
request goes on or is answered, an answer goes back, and a gossip goes on. Whatever is
offered is one of these (`handle_passes`); how much is offered at most is stated per kind.
Its body is that of the message or one of three that the engine makes up (`Engine.Composes`).

Requests are the only messages that consult their route, so the case of a gossip says
nothing about it.
-/

namespace TrustMesh

/-- A kind is that of a request, of an answer or of a gossip. -/
theorem MessageKind.sorts (kind : MessageKind) :
    kind.isRequest = true ∨ kind.isAnswer = true ∨ kind = .gossip := by
  cases kind <;> simp [isRequest, isAnswer]

theorem MessageKind.isAnswer_of_isRequest {kind : MessageKind} (asks : kind.isRequest = true) :
    kind.isAnswer = false := by
  cases kind with
  | traceRequest => rfl
  | complianceRequest => rfl
  | _ => cases asks

theorem MessageKind.not_isRequest_of_isAnswer {kind : MessageKind}
    (answers : kind.isAnswer = true) : ¬ kind.isRequest = true := fun asks => by
  rw [isAnswer_of_isRequest asks] at answers
  cases answers

theorem MessageKind.ne_gossip_of_isRequest {kind : MessageKind} (asks : kind.isRequest = true) :
    kind ≠ .gossip := by
  rintro rfl
  cases asks

theorem MessageKind.ne_gossip_of_isAnswer {kind : MessageKind} (answers : kind.isAnswer = true) :
    kind ≠ .gossip := by
  rintro rfl
  cases answers

namespace Engine

variable {e : Engine} {s : Surroundings} {sender : Option PeerId} {m : Message} {id : MessageId}
  {o : Dispatch}

/-- How a message that is offered comes from the one that is handled. -/
inductive Passes (e : Engine) (s : Surroundings) (sender : Option PeerId) (m : Message)
    (o : Dispatch) : Prop where
  | onward (asks : m.body.kind.isRequest = true) (unpassed : e.Unpassed m)
      (longer : o.message = m.extended e.primary)
      (known : ∃ peer, s.directory.resolve peer = some o.link)
  | answer (asks : m.body.kind.isRequest = true) (unpassed : e.Unpassed m)
      (replies : o.message.body.kind.isAnswer = true) (route : o.message.route = m.route)
      (known : ∃ peer, (sender = some peer ∨ m.previousHop? = some peer) ∧
        s.directory.resolve peer = some o.link)
  | back (answers : m.body.kind.isAnswer = true) (same : o.message = m)
      (forward : ReturnHop.ofRoute m.route e.identity s.directory = .forward o.link)
  | spread {members : List PeerId} {content : Json} {graph grown : Graph}
      (gossip : m.body = .gossip members content graph) (new : e.seen.contains m.id = false)
      (copies : o.message = ⟨m.id, m.route ++ [e.primary], .gossip members content grown⟩)
      (known : ∃ peer ∈ members, e.identity.contains peer = false ∧
        some peer ≠ sender.or m.previousHop? ∧ s.directory.resolve peer = some o.link)

theorem Treats.passes {outcome : Outcome} {offered : List Dispatch}
    (treats : e.Treats s sender m outcome offered) (mem : o ∈ offered) : e.Passes s sender m o := by
  cases treats with
  | drop reason => cases mem
  | tell event told => cases mem
  | found asks unpassed own last offers =>
    obtain ⟨same, peer, there, resolved⟩ := mem_address (offers ▸ mem)
    cases List.mem_singleton.1 there
    exact .answer (by rw [asks]; rfl) unpassed (by rw [same]; rfl) (by rw [same]; rfl)
      ⟨_, .inr last, resolved⟩
  | straight asks unpassed foreign resolved =>
    cases List.mem_singleton.1 mem
    exact .onward (by rw [asks]; rfl) unpassed rfl ⟨_, resolved⟩
  | search asks unpassed foreign unknown offers =>
    obtain ⟨same, peer, -, resolved⟩ := mem_address (offers ▸ mem)
    exact .onward (by rw [asks]; rfl) unpassed same ⟨peer, resolved⟩
  | back answers forward =>
    cases List.mem_singleton.1 mem
    exact .back answers rfl forward
  | spread gossip new offers =>
    obtain ⟨same, peer, there, resolved⟩ := mem_address (offers ▸ mem)
    obtain ⟨member, onward⟩ := List.mem_filter.1 there
    simp only [Bool.and_eq_true, Bool.not_eq_true', decide_eq_true_eq] at onward
    exact .spread gossip new same ⟨peer, member, onward.1, onward.2, resolved⟩
  | query asks unpassed known offers =>
    have asks : m.body.kind.isRequest = true := by rw [asks]; rfl
    rcases List.mem_append.1 (offers ▸ mem) with answer | request
    · obtain ⟨same, peer, there, resolved⟩ := mem_address answer
      cases List.mem_singleton.1 there
      refine .answer asks unpassed (by rw [same]; rfl) (by rw [same]; rfl) ⟨_, ?_, resolved⟩
      cases sender with
      | some peer => exact .inl known
      | none => exact .inr known
    · obtain ⟨same, peer, -, resolved⟩ := mem_address request
      exact .onward asks unpassed same ⟨peer, resolved⟩

/-- Whatever is offered while a message is handled comes from it in one of the four ways. -/
theorem handle_passes (mem : o ∈ (e.handle s sender m).offered) : e.Passes s sender m o :=
  (e.handle_treats s sender m).passes mem

/-- What is no gossip leads to none. -/
theorem Passes.ne_gossip (passes : e.Passes s sender m o) (other : m.body.kind ≠ .gossip) :
    o.message.body.kind ≠ .gossip := by
  cases passes with
  | onward _ _ longer _ =>
    rw [longer]
    exact other
  | answer _ _ replies _ _ => exact MessageKind.ne_gossip_of_isAnswer replies
  | back _ same _ =>
    rw [same]
    exact other
  | spread gossip => exact absurd (by rw [gossip]; rfl) other

/-- An answer goes on as it came, over the channel that leads back. -/
theorem Passes.back_of_isAnswer (passes : e.Passes s sender m o)
    (answers : m.body.kind.isAnswer = true) :
    o.message = m ∧ ReturnHop.ofRoute m.route e.identity s.directory = .forward o.link := by
  cases passes with
  | onward asks => exact absurd asks (MessageKind.not_isRequest_of_isAnswer answers)
  | answer asks => exact absurd asks (MessageKind.not_isRequest_of_isAnswer answers)
  | back _ same forward => exact ⟨same, forward⟩
  | spread gossip => exact absurd (by rw [gossip]; rfl) (MessageKind.ne_gossip_of_isAnswer answers)

/-! ## Bodies -/

/-- A body that is offered while a message is handled: the body of the message, an answer to it, or the
gossip with a graph that shows where it came from. -/
inductive Composes (e : Engine) (s : Surroundings) (sender : Option PeerId) (m : Message) :
    Body → Prop where
  | same : Composes e s sender m m.body
  | found {target : PeerId} (asks : m.body = .traceRequest target)
      (own : e.identity.contains target = true) :
      Composes e s sender m (.traceResponse target (.single target []))
  | grown {members : List PeerId} {content : Json} {graph : Graph}
      (gossip : m.body = .gossip members content graph) :
      Composes e s sender m (.gossip members content
        (e.observeSender s.directory graph (sender.or m.previousHop?)))
  | granted {framework : Framework} {peer : PeerId} (asks : m.body = .complianceRequest framework)
      (known : sender.or m.previousHop? = some peer) :
      Composes e s sender m (.complianceResponse
        ((Graph.single e.primary (framework.grantedRoles s.oracle).toList).addEdge e.primary peer
          e.settings.linkLabel))

theorem Treats.composes {outcome : Outcome} {offered : List Dispatch}
    (treats : e.Treats s sender m outcome offered) (mem : o ∈ offered) :
    e.Composes s sender m o.message.body := by
  cases treats with
  | drop reason => cases mem
  | tell event told => cases mem
  | found asks unpassed own last offers =>
    rw [(mem_address (offers ▸ mem)).1]
    exact .found asks own
  | straight asks unpassed foreign resolved =>
    cases List.mem_singleton.1 mem
    exact .same
  | search asks unpassed foreign unknown offers =>
    rw [(mem_address (offers ▸ mem)).1]
    exact .same
  | back answers forward =>
    cases List.mem_singleton.1 mem
    exact .same
  | spread gossip new offers =>
    rw [(mem_address (offers ▸ mem)).1]
    exact .grown gossip
  | query asks unpassed known offers =>
    rcases List.mem_append.1 (offers ▸ mem) with answer | request
    · rw [(mem_address answer).1]
      exact .granted asks known
    · rw [(mem_address request).1]
      exact .same

/-- Whatever is offered while a message is handled has one of these bodies. -/
theorem handle_composes (mem : o ∈ (e.handle s sender m).offered) :
    e.Composes s sender m o.message.body := (e.handle_treats s sender m).composes mem

/-- The body that an exchange begins with. -/
def opening (e : Engine) : Exchange → Body
  | .trace target => .traceRequest target
  | .gossip members content =>
    .gossip members content (.single e.primary [e.settings.linkLabel])
  | .comply framework => .complianceRequest framework

/-- Whatever is offered when an exchange is started has the body that the exchange begins with. -/
theorem start_composes {exchange : Exchange} (mem : o ∈ (e.start s id exchange).offered) :
    o.message.body = e.opening exchange := by
  cases exchange with
  | trace target =>
    simp only [start, startTrace] at mem
    split at mem
    · cases List.mem_singleton.1 mem
      rfl
    · rw [(mem_address mem).1]
      rfl
  | gossip members content =>
    rw [(mem_address mem).1]
    rfl
  | comply framework =>
    rw [(mem_address mem).1]
    rfl

/-- What is offered when an exchange is started is no answer, and a gossip goes to others. -/
theorem start_opens {exchange : Exchange} (mem : o ∈ (e.start s id exchange).offered) :
    o.message.body.kind.isAnswer = false ∧ (o.message.body.kind = .gossip →
      ∃ peer, e.identity.contains peer = false ∧ s.directory.resolve peer = some o.link) := by
  rw [start_composes mem]
  cases exchange with
  | gossip members content =>
    obtain ⟨-, peer, there, resolved⟩ := mem_address mem
    obtain ⟨-, other⟩ := List.mem_filter.1 there
    refine ⟨rfl, fun _ => ⟨peer, ?_, resolved⟩⟩
    simpa using other
  | _ => exact ⟨rfl, by simp [opening, Body.kind]⟩

/-! ## How much is offered -/

theorem length_address_le (directory : Directory) (peers : List PeerId) (message : Message) :
    (address directory peers message).length ≤ peers.length := List.length_filterMap_le ..

theorem length_floodTargets_le (e : Engine) (directory : Directory) (message : Message)
    (excluded : Option PeerId) :
    (e.floodTargets directory message excluded).length ≤ directory.connected.length :=
  List.length_filter_le ..

theorem length_flood_le (e : Engine) (directory : Directory) (m message : Message)
    (excluded : Option PeerId) :
    (address directory (e.floodTargets directory m excluded) message).length ≤
      directory.connected.length :=
  Nat.le_trans (length_address_le ..) (length_floodTargets_le ..)

/-- A request is passed on to the connected peers and answered once, at most. -/
theorem length_offered_of_request (asks : m.body.kind.isRequest = true) :
    (e.handle s sender m).offered.length ≤ s.directory.connected.length + 1 := by
  have treats := e.handle_treats s sender m
  generalize (e.handle s sender m).result = outcome,
    (e.handle s sender m).offered = offered at treats ⊢
  cases treats with
  | drop reason => exact Nat.zero_le _
  | tell event told => exact Nat.zero_le _
  | found _ _ _ _ offers =>
    subst offers
    exact Nat.le_trans (length_address_le ..) (Nat.le_add_left ..)
  | straight => exact Nat.le_add_left ..
  | search _ _ _ _ offers =>
    subst offers
    exact Nat.le_trans (length_flood_le ..) (Nat.le_succ _)
  | back => exact Nat.le_add_left ..
  | spread gossip => exact absurd (by rw [gossip]; rfl) (MessageKind.ne_gossip_of_isRequest asks)
  | @query framework peer _ _ _ _ offers =>
    have answer := length_address_le s.directory [peer]
      (m.reply (.complianceResponse (e.grantGraph s framework peer)))
    have flood := length_flood_le e s.directory m (m.extended e.primary) (some peer)
    rw [List.length_singleton] at answer
    rw [offers, List.length_append]
    omega

/-- An answer leads to one answer at most. -/
theorem length_offered_of_answer (answers : m.body.kind.isAnswer = true) :
    (e.handle s sender m).offered.length ≤ 1 := by
  have treats := e.handle_treats s sender m
  generalize (e.handle s sender m).result = outcome,
    (e.handle s sender m).offered = offered at treats ⊢
  cases treats with
  | drop reason => exact Nat.zero_le _
  | tell event told => exact Nat.zero_le _
  | back => exact Nat.le_refl _
  | spread gossip => exact absurd (by rw [gossip]; rfl) (MessageKind.ne_gossip_of_isAnswer answers)
  | found asks => exact absurd (by rw [asks]; rfl) (MessageKind.not_isRequest_of_isAnswer answers)
  | straight asks => exact absurd (by rw [asks]; rfl) (MessageKind.not_isRequest_of_isAnswer answers)
  | search asks => exact absurd (by rw [asks]; rfl) (MessageKind.not_isRequest_of_isAnswer answers)
  | query asks => exact absurd (by rw [asks]; rfl) (MessageKind.not_isRequest_of_isAnswer answers)

/-- A gossip is passed on to its members at most. -/
theorem length_offered_of_gossip {members : List PeerId} {content : Json} {graph : Graph}
    (body : m.body = .gossip members content graph) :
    (e.handle s sender m).offered.length ≤ members.length := by
  simp only [handle, body]
  unfold onGossip
  simp only
  split
  · exact Nat.zero_le _
  · exact Nat.zero_le _
  · exact Nat.le_trans (length_address_le ..) (List.length_filter_le ..)

/-- A search or a query that is started asks the connected peers at most, or its target. -/
theorem length_start_le {exchange : Exchange}
    (asks : ∀ members content, exchange ≠ .gossip members content) :
    (e.start s id exchange).offered.length ≤ s.directory.connected.length + 1 := by
  cases exchange with
  | trace target =>
    simp only [start, startTrace]
    split
    · exact Nat.le_add_left ..
    · exact Nat.le_trans (length_flood_le ..) (Nat.le_succ _)
  | gossip members content => exact absurd rfl (asks members content)
  | comply framework => exact Nat.le_trans (length_flood_le ..) (Nat.le_succ _)

/-- A gossip that is started goes to its members at most. -/
theorem length_startGossip_le {members : List PeerId} {content : Json} :
    (e.start s id (.gossip members content)).offered.length ≤ members.length :=
  Nat.le_trans (length_address_le ..) (List.length_filter_le ..)

end Engine

end TrustMesh
