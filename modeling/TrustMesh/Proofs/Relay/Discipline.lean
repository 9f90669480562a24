import TrustMesh.Proofs.Relay.Journal
import TrustMesh.Proofs.Relay.Passing

/-!
# Whom messages are passed on to

An engine offers nothing to itself. It passes a request on to no peer of its route unless
that peer is sought, and where it spreads one it leaves out no other connected peer. An
answer goes back as it came. `Engine.forwarding_discipline` states this of every engine,
whatever it remembers.

Nothing is assumed of the message, which may be forged.
-/

namespace TrustMesh

/-- A directory that lists every connected peer once and resolves these peers and no others, each to
a channel that leads to it. -/
structure Directory.Faithful (d : Directory) : Prop where
  once : d.connected.Nodup
  known : ∀ peer, (d.resolve peer).isSome ↔ peer ∈ d.connected
  leads : ∀ peer link, d.resolve peer = some link → link.far = peer

/-- The directory of a fixed set of peers is faithful. -/
theorem Directory.faithful_ofPeers (near : PeerId) (peers failing : OrderedSet PeerId) :
    (Directory.ofPeers near peers failing).Faithful where
  once := peers.increasing.imp fun {a b} less => by
    rintro rfl
    simp at less
  known peer := by
    simp only [Directory.ofPeers]
    split
    · rename_i there
      exact iff_of_true rfl there
    · rename_i absent
      exact iff_of_false Bool.noConfusion absent
  leads peer link resolved := by
    simp only [Directory.ofPeers] at resolved
    split at resolved
    · cases resolved
      rfl
    · cases resolved

/-- A peer of a fixed set that refuses nothing takes every frame. -/
theorem Directory.accepts_ofPeers {near peer : PeerId} {peers : OrderedSet PeerId} {link : Link}
    (resolved : (Directory.ofPeers near peers .empty).resolve peer = some link) (frame : Frame) :
    (Directory.ofPeers near peers .empty).accepts link frame = true := by
  obtain rfl := (faithful_ofPeers near peers .empty).leads peer link resolved
  have there := ((faithful_ofPeers near peers .empty).known link.far).1 (resolved ▸ rfl)
  have there : link.far ∈ peers := there
  simp [accepts, ofPeers, there]

namespace Engine

variable {e : Engine} {s : Surroundings} {sender : Option PeerId} {m : Message}
  {outcome : Outcome} {offered : List Dispatch} {o : Dispatch}

/-! ## Messages to some peers -/

section Address

variable {directory : Directory} {peers : List PeerId} {message : Message}

/-- A message that is addressed to some peers goes to them alone. -/
theorem far_mem_of_mem_address (faithful : directory.Faithful)
    (mem : o ∈ address directory peers message) : o.link.far ∈ peers := by
  obtain ⟨-, peer, there, resolved⟩ := mem_address mem
  rwa [faithful.leads peer o.link resolved]

/-- Of what is addressed to some peers, one of them is offered what is addressed to it. -/
theorem filter_address (faithful : directory.Faithful) (peer : PeerId) :
    (address directory peers message).filter (·.link.far = peer) =
      address directory (peers.filter (· = peer)) message := by
  unfold address
  rw [List.filter_filterMap, List.filterMap_filter]
  congr 1
  funext other
  cases resolved : directory.resolve other with
  | none => simp
  | some link =>
    rw [← faithful.leads other link resolved]
    simp [Option.filter]

/-- Each of some peers is offered a message that is addressed to all of them once. -/
theorem filter_address_of_mem (faithful : directory.Faithful) (once : peers.Nodup) {peer : PeerId}
    {link : Link} (there : peer ∈ peers) (resolved : directory.resolve peer = some link) :
    (address directory peers message).filter (·.link.far = peer) = [⟨link, message⟩] := by
  rw [filter_address faithful, List.filter_eq, List.count_eq_one_of_mem once there]
  simp [address, resolved]

/-- What is addressed to some peers is not offered to another. -/
theorem filter_address_of_notMem (faithful : directory.Faithful) {peer : PeerId}
    (elsewhere : peer ∉ peers) :
    (address directory peers message).filter (·.link.far = peer) = [] :=
  List.filter_eq_nil_iff.2 fun _ mem same =>
    elsewhere (of_decide_eq_true same ▸ far_mem_of_mem_address faithful mem)

end Address

/-! ## Requests -/

/-- The peer that is answered when a message is passed on: the one that a compliance query came
from. -/
def answered? (sender : Option PeerId) (m : Message) : Option PeerId :=
  match m.body with
  | .complianceRequest _ => sender.or m.previousHop?
  | _ => none

/-- A request that is spread: it is not dropped, and it does not seek the node itself or a peer that is
connected. -/
structure Spreads (e : Engine) (s : Surroundings) (m : Message) (outcome : Outcome) : Prop where
  asks : m.body.kind.isRequest = true
  kept : outcome.dropReason? = none
  away : ∀ target, m.body = .traceRequest target →
    e.identity.contains target = false ∧ target ∉ s.directory.connected

/-- An offer that passes a request on: the request with this node on its route, which repeats no peer
and names no other identifier of the node. It goes to a peer off the route that is not answered, or
straight to the connected peer that is sought. -/
structure PassesOn (e : Engine) (s : Surroundings) (sender : Option PeerId) (m : Message)
    (o : Dispatch) : Prop where
  same : o.message = m.extended e.primary
  straight : o.message.route.Nodup
  own : ∀ hop ∈ o.message.route, e.identity.contains hop = true → hop = e.primary
  aim : (o.link.far ∉ m.route ∧ answered? sender m ≠ some o.link.far) ∨
    (m.body = .traceRequest o.link.far ∧ o.link.far ∈ s.directory.connected)

theorem contains_primary (e : Engine) : e.identity.contains e.primary = true := by
  simp [primary, Identity.contains, Identity.all]

theorem Unpassed.not_mem (unpassed : e.Unpassed m) {peer : PeerId}
    (own : e.identity.contains peer = true) : peer ∉ m.route := fun there =>
  Bool.false_ne_true (unpassed.foreign.symm.trans (List.any_eq_true.2 ⟨peer, there, own⟩))

/-- A route that has not passed this node and repeats no peer goes on doing so behind it. -/
theorem Unpassed.passesOn (unpassed : e.Unpassed m) (same : o.message = m.extended e.primary)
    (aim : (o.link.far ∉ m.route ∧ answered? sender m ≠ some o.link.far) ∨
      (m.body = .traceRequest o.link.far ∧ o.link.far ∈ s.directory.connected)) :
    e.PassesOn s sender m o where
  same := same
  straight := by
    have straight : m.route.Nodup := by simpa [Message.hasLoop] using unpassed.straight
    rw [same, Message.extended, ← List.concat_eq_append]
    exact straight.concat (unpassed.not_mem e.contains_primary)
  own hop there own := by
    rw [same] at there
    rcases List.mem_append.1 there with earlier | last
    · exact absurd earlier (unpassed.not_mem own)
    · exact List.mem_singleton.1 last
  aim := aim

/-- Whom a request is spread to: a connected peer other than the node, off the route, that is not
excluded. -/
theorem mem_floodTargets {directory : Directory} {excluded : Option PeerId} {peer : PeerId} :
    peer ∈ e.floodTargets directory m excluded ↔ peer ∈ directory.connected ∧
      e.identity.contains peer = false ∧ peer ∉ m.route ∧ excluded ≠ some peer := by
  simp only [floodTargets, List.mem_filter, Bool.and_eq_true, Bool.not_eq_true', decide_eq_true_eq]
  tauto

theorem nodup_floodTargets (faithful : s.directory.Faithful) (excluded : Option PeerId) :
    (e.floodTargets s.directory m excluded).Nodup := faithful.once.filter _

/-! ## Every way to treat a message -/

/-- Nothing is offered to the node itself. -/
theorem Treats.foreign (treats : e.Treats s sender m outcome offered)
    (faithful : s.directory.Faithful)
    (sent : ∀ peer, sender = some peer → e.identity.contains peer = false) (mem : o ∈ offered) :
    e.identity.contains o.link.far = false := by
  cases treats with
  | drop reason => cases mem
  | tell event told => cases mem
  | found asks unpassed own last offers =>
    have there := far_mem_of_mem_address faithful (offers ▸ mem)
    rw [List.mem_singleton.1 there]
    exact Bool.eq_false_iff.2 fun own => unpassed.not_mem own (List.mem_of_getLast? last)
  | straight asks unpassed foreign resolved =>
    cases List.mem_singleton.1 mem
    rwa [faithful.leads _ _ resolved]
  | search asks unpassed foreign unknown offers =>
    exact (mem_floodTargets.1 (far_mem_of_mem_address faithful (offers ▸ mem))).2.1
  | back answers forward =>
    cases List.mem_singleton.1 mem
    obtain ⟨peer, foreign, resolved⟩ := usable_of_forward forward
    rwa [faithful.leads peer _ resolved]
  | spread gossip new offers =>
    have there := far_mem_of_mem_address faithful (offers ▸ mem)
    simpa using (Bool.and_eq_true_iff.1 (List.mem_filter.1 there).2).1
  | query asks unpassed known offers =>
    rcases List.mem_append.1 (offers ▸ mem) with answer | request
    · rw [List.mem_singleton.1 (far_mem_of_mem_address faithful answer)]
      cases sender with
      | some peer => exact sent _ known
      | none => exact Bool.eq_false_iff.2 fun own => unpassed.not_mem own (List.mem_of_getLast? known)
    · exact (mem_floodTargets.1 (far_mem_of_mem_address faithful request)).2.1

/-- A request that is offered is the one that is handled, passed on. -/
theorem Treats.passesOn (treats : e.Treats s sender m outcome offered)
    (faithful : s.directory.Faithful) (mem : o ∈ offered)
    (asks : o.message.body.kind.isRequest = true) : e.PassesOn s sender m o := by
  cases treats with
  | drop reason => cases mem
  | tell event told => cases mem
  | found _ _ _ _ offers =>
    rw [(mem_address (offers ▸ mem)).1] at asks
    cases asks
  | straight sought unpassed foreign resolved =>
    cases List.mem_singleton.1 mem
    have far := faithful.leads _ _ resolved
    refine unpassed.passesOn rfl (.inr ⟨?_, ?_⟩)
    · rwa [far]
    · rw [far]
      exact (faithful.known _).1 (resolved ▸ rfl)
  | search sought unpassed foreign unknown offers =>
    have target := mem_floodTargets.1 (far_mem_of_mem_address faithful (offers ▸ mem))
    refine unpassed.passesOn (mem_address (offers ▸ mem)).1 (.inl ⟨target.2.2.1, ?_⟩)
    rw [answered?, sought]
    exact nofun
  | back answers forward =>
    cases List.mem_singleton.1 mem
    exact absurd asks (MessageKind.not_isRequest_of_isAnswer answers)
  | spread gossip new offers =>
    rw [(mem_address (offers ▸ mem)).1] at asks
    cases asks
  | query sought unpassed known offers =>
    rcases List.mem_append.1 (offers ▸ mem) with answer | request
    · rw [(mem_address answer).1] at asks
      cases asks
    · have target := mem_floodTargets.1 (far_mem_of_mem_address faithful request)
      refine unpassed.passesOn (mem_address request).1 (.inl ⟨target.2.2.1, ?_⟩)
      rw [answered?, sought, known]
      exact target.2.2.2

/-- A request that is spread is offered once to every connected peer other than the node that is off
its route and not answered. -/
theorem Treats.spreads_once (treats : e.Treats s sender m outcome offered)
    (faithful : s.directory.Faithful) (spreads : e.Spreads s m outcome) {peer : PeerId}
    (connected : peer ∈ s.directory.connected) (foreign : e.identity.contains peer = false)
    (off : peer ∉ m.route) (other : answered? sender m ≠ some peer) :
    ∃ link, link.far = peer ∧
      offered.filter (·.link.far = peer) = [⟨link, m.extended e.primary⟩] := by
  obtain ⟨link, resolved⟩ := Option.isSome_iff_exists.1 ((faithful.known peer).2 connected)
  refine ⟨link, faithful.leads peer link resolved, ?_⟩
  cases treats with
  | drop reason => cases spreads.kept
  | tell event told => exact absurd spreads.asks (Bool.eq_false_iff.1 told)
  | found asks _ own => exact absurd (spreads.away _ asks).1 (by simp [own])
  | straight asks _ _ known =>
    exact absurd ((faithful.known _).1 (known ▸ rfl)) (spreads.away _ asks).2
  | search asks unpassed _ unknown offers =>
    rw [offers]
    refine filter_address_of_mem faithful (nodup_floodTargets faithful _) ?_ resolved
    exact mem_floodTargets.2 ⟨connected, foreign, off, nofun⟩
  | back answers => exact absurd spreads.asks (MessageKind.not_isRequest_of_isAnswer answers)
  | spread gossip =>
    have asks := spreads.asks
    rw [gossip] at asks
    cases asks
  | query asks unpassed known offers =>
    rw [answered?, asks, known] at other
    rw [offers, List.filter_append, filter_address_of_notMem faithful, List.nil_append]
    · refine filter_address_of_mem faithful (nodup_floodTargets faithful _) ?_ resolved
      exact mem_floodTargets.2 ⟨connected, foreign, off, other⟩
    · exact fun same => other (congrArg some (List.mem_singleton.1 same).symm)

/-! ## The discipline -/

/-- Whatever an engine makes of a message that comes from another peer, all that it offers belongs to
the exchange of the message and goes to other peers. A request that it offers is the message passed on;
a request that is spread reaches every peer that it may go to once. An answer goes on as it came, to one
peer at most. The recipients are the peers that accept what is offered, in order. -/
theorem forwarding_discipline (e : Engine) (s : Surroundings) (sender : Option PeerId) (m : Message)
    (faithful : s.directory.Faithful)
    (foreign : ∀ peer, sender = some peer → e.identity.contains peer = false) :
    let step := e.handle s sender m
    (∀ o ∈ step.offered, o.message.id = m.id ∧ e.identity.contains o.link.far = false) ∧
      (∀ o ∈ step.offered, o.message.body.kind.isRequest = true → e.PassesOn s sender m o) ∧
      (e.Spreads s m step.result → ∀ peer ∈ s.directory.connected,
        e.identity.contains peer = false → peer ∉ m.route → answered? sender m ≠ some peer →
          ∃ link, link.far = peer ∧
            step.offered.filter (·.link.far = peer) = [⟨link, m.extended e.primary⟩]) ∧
      (m.body.kind.isAnswer = true → step.offered.length ≤ 1 ∧ ∀ o ∈ step.offered, o.message = m) ∧
      step.result.recipients =
        (step.offered.filter fun o => s.directory.accepts o.link o.frame).map (·.link.far) := by
  intro step
  have treats : e.Treats s sender m step.result step.offered := e.handle_treats s sender m
  refine ⟨fun o mem => ⟨(handle_onward mem).id, treats.foreign faithful foreign mem⟩,
    fun o mem asks => treats.passesOn faithful mem asks,
    fun spreads peer connected away off other =>
      treats.spreads_once faithful spreads connected away off other,
    fun answers => ⟨length_offered_of_answer answers,
      fun o mem => ((handle_passes mem).back_of_isAnswer answers).1⟩, treats.recipients⟩

/-- A query that comes from a peer that is not on its route is answered to that peer and spread to the
peers off the route, once each; a peer that refuses its frame is no recipient. -/
theorem forwarding_discipline_query :
    let e := fresh ⟨"A"⟩
    let s : Surroundings :=
      ⟨.ofPeers ⟨"A"⟩ (.ofList [⟨"B"⟩, ⟨"C"⟩, ⟨"D"⟩, ⟨"E"⟩]) (.ofList [⟨"E"⟩]), .scripted [] .empty⟩
    let m : Message := ⟨.zero, [⟨"X"⟩, ⟨"C"⟩], .complianceRequest Framework.record.start⟩
    let step := e.handle s (some ⟨"B"⟩) m
    (∀ o ∈ step.offered, o.message.body.kind.isRequest = true → e.PassesOn s (some ⟨"B"⟩) m o) ∧
      (∃ link, link.far = ⟨"D"⟩ ∧
        step.offered.filter (·.link.far = ⟨"D"⟩) = [⟨link, m.extended ⟨"A"⟩⟩]) ∧
      step.result.recipients = [⟨"B"⟩, ⟨"D"⟩] := by
  intro e s m step
  have faithful : s.directory.Faithful := Directory.faithful_ofPeers ..
  have foreign : ∀ peer, some (⟨"B"⟩ : PeerId) = some peer → e.identity.contains peer = false := by
    rintro _ ⟨⟩
    decide
  have discipline := forwarding_discipline e s (some ⟨"B"⟩) m faithful foreign
  have spreads : e.Spreads s m step.result := ⟨rfl, by decide, nofun⟩
  refine ⟨discipline.2.1, ?_, by decide⟩
  exact discipline.2.2.1 spreads ⟨"D"⟩ (by decide) (by decide) (by decide) (by decide)

end Engine

end TrustMesh
