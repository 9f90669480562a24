import Mathlib.Algebra.Order.Group.Multiset
import TrustMesh.Proofs.Mesh.Ledger
import TrustMesh.Proofs.Mesh.Reflection

/-!
# Gossip

A gossip spreads over links from the peer that starts it to its members. `Deployment.Spread`
says how far it has come in a scene: who remembers it was reached over members, and those
that such a peer shares it with remember it too or have it in flight. `gossip_delivery`
follows: nodes that remember all exchanges are shown a gossip once, and when no frame is in
flight it was shown to all that members connect to its origin and to no others.

Nothing is said of the graph that a gossip gathers on its way.
-/

namespace TrustMesh

open Std

namespace Engine

variable {e : Engine} {s : Surroundings} {sender : PeerId} {m : Message} {members : List PeerId}
  {content : Json} {graph : Graph}

/-- A later copy goes nowhere and is not shown as a gossip. -/
theorem handle_of_known_gossip (body : m.body = .gossip members content graph)
    (known : e.seen.contains m.id = true) :
    (e.handle s (some sender) m).offered = [] ∧
      ∀ event, (e.handle s (some sender) m).result.event? = some event →
        event.isGossip m.id = false := by
  have later : (e.seen.observe m.id graph.digest).1 ≠ .first := fun first =>
    Bool.eq_false_iff.1 (SeenCache.observe_fst_eq_first.1 first) known
  simp only [handle, body, onGossip]
  split
  · exact ⟨rfl, by simp [drop, Outcome.event?]⟩
  · exact ⟨rfl, by simp [tell, Outcome.event?, Event.isGossip]⟩
  · rename_i first
    exact (later first).elim

/-- Every copy is remembered. -/
theorem handle_gossip_stores (body : m.body = .gossip members content graph) :
    ∃ value, (e.handle s (some sender) m).engine.seen.entries =
      e.seen.entries.put m.id value := by
  obtain ⟨value, stored⟩ := e.seen.exists_observe_eq_put m.id graph.digest
  refine ⟨value, ?_⟩
  simp only [handle, body, onGossip]
  split <;> exact stored

end Engine

/-- A peer remembers an exchange. -/
def Scene.Recalls (s : Scene) (id : MessageId) (p : PeerId) : Prop :=
  (s.engine p).seen.contains id = true

instance (s : Scene) (id : MessageId) (p : PeerId) : Decidable (s.Recalls id p) :=
  inferInstanceAs (Decidable (_ = _))

namespace Deployment

/-- A peer shares a gossip over a link with one of its members. -/
def Shares (d : Deployment) (members : List PeerId) (p q : PeerId) : Prop :=
  d.Linked p q ∧ q ∈ members

/-- All exchanges of a history have identifiers of their own, and every node can remember them. -/
structure Retains (d : Deployment) (h : History) : Prop where
  distinct : h.startedIds.Nodup
  room : ∀ m ∈ d.members, h.startedIds.length ≤ m.settings.seenCapacity

/-- How far a gossip has come. -/
structure Spread (d : Deployment) (a : Member) (members : List PeerId) (content : Json)
    (id : MessageId) (h : History) (s : Scene) : Prop where
  origin : s.Recalls id a.id
  reached : ∀ m ∈ d.members, s.Recalls id m.id →
    Relation.ReflTransGen (d.Shares members) a.id m.id
  sent : ∀ k ∈ s.about id, s.Recalls id k.near ∧ k.far ∈ members
  cover : ∀ m ∈ d.members, s.Recalls id m.id → ∀ q, d.Shares members m.id q →
    s.Recalls id q ∨ ∃ k ∈ s.about id, k.far = q
  shown : ∀ m ∈ d.members, (h.emitted m.id).countP (Event.isGossip id) =
    if m.id ≠ a.id ∧ s.Recalls id m.id then 1 else 0
  carried : ∀ m ∈ d.members, ∀ event ∈ h.emitted m.id, event.isGossip id = true →
    ∃ graph sender, event = .gossipReceived id content members graph sender

variable {d : Deployment} {a m : Member} {h : History} {s next : Scene} {deed : Deed}
  {id : MessageId} {members : List PeerId} {content : Json}

theorem Retains.earlier (retains : d.Retains (h ++ [deed])) : d.Retains h := by
  refine ⟨History.nodup_startedIds retains.distinct, fun m mem => ?_⟩
  have bound := retains.room m mem
  rw [History.startedIds_append, List.length_append] at bound
  omega

theorem mem_packets_address {near : PeerId} {peers : List PeerId} {message : Message}
    {k : Packet} : k ∈ packets (Engine.address (d.directory near) peers message) ↔
      k.far ∈ peers ∧ d.Linked near k.far ∧ k = ⟨near, k.far, message⟩ := by
  rw [mem_packets]
  constructor
  · rintro ⟨o, offer, rfl⟩
    obtain ⟨rfl, peer, there, resolved⟩ := Engine.mem_address offer
    obtain ⟨link, linked⟩ := resolve_eq_some resolved
    rw [Dispatch.packet, link]
    exact ⟨there, linked, rfl⟩
  · rintro ⟨there, linked, whole⟩
    refine ⟨⟨⟨near, k.far⟩, message⟩, ?_, whole.symm⟩
    exact List.mem_filterMap.2 ⟨k.far, there, by rw [resolve_of_linked linked]; rfl⟩

/-- A message for linked peers is offered to each of them. -/
theorem exists_mem_packets {near : PeerId} {peers : List PeerId} {message : Message} {q : PeerId}
    (asked : q ∈ peers) (linked : d.Linked near q) :
    ∃ k ∈ packets (Engine.address (d.directory near) peers message), k.far = q :=
  ⟨⟨near, q, message⟩, mem_packets_address.2 ⟨asked, linked, rfl⟩, rfl⟩

/-- No other linked peer is an own identifier of a member. -/
theorem Ledger.foreign (ledger : d.Ledger h s) (mem : m ∈ d.members) {p q : PeerId}
    (linked : d.Linked p q) (differ : q ≠ m.id) :
    (s.engine m.id).identity.contains q = false := by
  rw [ledger.identity m mem, Bool.eq_false_iff, ne_eq, contains_linked_iff mem linked]
  exact differ

/-- A member whose engine stores something for an exchange remembers it from then on. -/
theorem Retains.recalls_after (retains : d.Retains (h ++ [deed])) (ledger : d.Ledger h s)
    (mem : m ∈ d.members) (known : id ∈ (h ++ [deed]).startedIds) {engine : Engine}
    (stored : ∃ value, engine.seen.entries = (s.engine m.id).seen.entries.put id value)
    {rest : Multiset Packet} {offered : List Dispatch} (p : PeerId) :
    (s.after m.id engine rest offered).Recalls id p ↔ s.Recalls id p ∨ p = m.id := by
  by_cases own : p = m.id
  · obtain ⟨value, stored⟩ := stored
    rw [Scene.Recalls, own, Scene.engine_after_self]
    exact iff_of_true
      (SeenCache.contains_of_put stored (ledger.within_seen mem) known (retains.room m mem))
      (.inr rfl)
  · rw [Scene.Recalls, Scene.engine_after_of_ne own, or_iff_left own]
    rfl

/-- A deed in another exchange leaves a gossip alone. -/
theorem Spread.other (spread : d.Spread a members content id h s) (ledger : d.Ledger h s)
    (retains : d.Retains (h ++ [deed])) (mem : m ∈ d.members) {other : MessageId}
    {engine : Engine} {rest : Multiset Packet} (keeps : (s.engine m.id).Keeps other engine)
    (differ : id ≠ other) (known : other ∈ (h ++ [deed]).startedIds)
    (about : rest.filter (·.message.id = id) = s.about id)
    (offered : ∀ o ∈ deed.offered, o.message.id = other)
    (told : ∀ event, deed.event = some event → event.id = other) :
    d.Spread a members content id (h ++ [deed]) (s.after m.id engine rest deed.offered) := by
  have recalls : ∀ p, (s.after m.id engine rest deed.offered).Recalls id p ↔ s.Recalls id p := by
    intro p
    rw [Scene.Recalls, ledger.contains_after mem keeps differ known (retains.room m mem)]
    rfl
  have flight : (s.after m.id engine rest deed.offered).about id = s.about id := by
    rw [Scene.about_after_of_other fun o offer => offered o offer ▸ Ne.symm differ, about]
  have untold : ∀ event, deed.event = some event → event.isGossip id = false := by
    intro event found
    rw [Bool.eq_false_iff]
    exact fun sort => differ ((Event.id_of_isGossip sort).symm.trans (told event found))
  constructor
  · rw [recalls]
    exact spread.origin
  · intro other there
    rw [recalls]
    exact spread.reached other there
  · intro k there
    rw [flight] at there
    rw [recalls]
    exact spread.sent k there
  · intro other there
    rw [recalls, flight]
    simp only [recalls]
    exact spread.cover other there
  · intro other there
    have none : (History.emitted [deed] other.id).countP (Event.isGossip id) = 0 := by
      refine List.countP_eq_zero.2 fun event last => ?_
      obtain ⟨_, only, -, found⟩ := History.mem_emitted.1 last
      cases List.mem_singleton.1 only
      simp [untold event found]
    rw [History.emitted_append, List.countP_append, none, add_zero, spread.shown other there]
    simp only [recalls]
  · intro other there event told sort
    rcases History.mem_emitted_concat.1 told with before | ⟨-, last⟩
    · exact spread.carried other there event before sort
    · rw [untold event last] at sort
      cases sort

/-- A deed that comes to nothing leaves a gossip alone. -/
theorem Spread.idle (spread : d.Spread a members content id h s) (idle : deed.Idle) :
    d.Spread a members content id (h ++ [deed]) s := by
  refine { spread with shown := ?_, carried := ?_ }
  · simp only [History.emitted_idle h idle]
    exact spread.shown
  · simp only [History.emitted_idle h idle]
    exact spread.carried

/-- A member that a copy arrives at remembers the gossip. If it did not before, it passes the gossip
on and is shown it. -/
theorem Spread.receive (spread : d.Spread a members content id h s) (ledger : d.Ledger h s)
    (legible : History.Legible (h ++ [deed]) id)
    {k : Packet} {rest : Multiset Packet} (taken : s.flight = k ::ₘ rest)
    (arrived : k.far = m.id) (same : k.message.id = id) {engine : Engine}
    (recalls : ∀ p, (s.after m.id engine rest deed.offered).Recalls id p ↔
      s.Recalls id p ∨ p = m.id) (own : deed.peer = m.id)
    (mine : ∀ o ∈ deed.offered, o.message.id = id)
    (offers : ∀ k ∈ packets deed.offered, k.near = m.id ∧ k.far ∈ members)
    (passes : ¬ s.Recalls id m.id → ∀ q, d.Shares members m.id q →
      q = m.id ∨ q = k.near ∨ ∃ k ∈ packets deed.offered, k.far = q)
    (tells : deed.event.toList.countP (Event.isGossip id) = if s.Recalls id m.id then 0 else 1)
    (carries : ∀ event, deed.event = some event → event.isGossip id = true →
      ∃ graph sender, event = .gossipReceived id content members graph sender) :
    d.Spread a members content id (h ++ [deed]) (s.after m.id engine rest deed.offered) := by
  have before : s.about id = k ::ₘ rest.filter (·.message.id = id) := by
    rw [Scene.about, taken, Multiset.filter_cons, if_pos same, Multiset.singleton_add]
  have flight : (s.after m.id engine rest deed.offered).about id =
      rest.filter (·.message.id = id) + packets deed.offered :=
    Scene.about_after_of_own mine (legible.read mine)
  have here : k ∈ s.about id := before ▸ Multiset.mem_cons_self ..
  have linked : d.Linked k.near k.far := ledger.linked k (taken ▸ Multiset.mem_cons_self ..)
  obtain ⟨near, member⟩ := spread.sent k here
  constructor
  · exact (recalls _).2 (.inl spread.origin)
  · intro other there recalled
    rcases (recalls _).1 recalled with old | new
    · exact spread.reached other there old
    · obtain ⟨n, known, sender⟩ := linked.symm.member
      rw [new, ← arrived]
      rw [← sender] at near linked
      exact (spread.reached n known near).tail ⟨linked, member⟩
  · intro k' there
    rw [recalls]
    rcases Multiset.mem_add.1 (flight ▸ there) with old | new
    · exact (spread.sent k' (before ▸ Multiset.mem_cons_of_mem old)).imp_left .inl
    · exact ⟨.inr (offers k' new).1, (offers k' new).2⟩
  · intro other there recalled q shares
    rw [recalls, flight]
    by_cases old : s.Recalls id other.id
    · rcases spread.cover other there old q shares with known | ⟨k', coming, rfl⟩
      · exact .inl (.inl known)
      · rw [before] at coming
        rcases Multiset.mem_cons.1 coming with rfl | coming
        · exact .inl (.inr arrived)
        · exact .inr ⟨k', Multiset.mem_add.2 (.inl coming), rfl⟩
    · have self := ((recalls _).1 recalled).resolve_left old
      rw [self] at old shares
      rcases passes old q shares with rfl | rfl | ⟨k', new, rfl⟩
      · exact .inl (.inr rfl)
      · exact .inl (.inl near)
      · exact .inr ⟨k', Multiset.mem_add.2 (.inr new), rfl⟩
  · intro other there
    rw [History.emitted_append, List.countP_append, spread.shown other there,
      History.emitted_singleton, own]
    by_cases self : other.id = m.id
    · rw [if_pos self.symm, tells, self]
      by_cases old : s.Recalls id m.id
      · simp [recalls, old]
      · have away : m.id ≠ a.id := fun home => old (home ▸ spread.origin)
        simp [recalls, old, away]
    · rw [if_neg (Ne.symm self)]
      simp [recalls, self]
  · intro other there event told sort
    rcases History.mem_emitted_concat.1 told with earlier | ⟨-, last⟩
    · exact spread.carried other there event earlier sort
    · exact carries event last sort

/-- A message of a gossip has its content and its members. -/
theorem Ledger.gossip_body (ledger : d.Ledger h s) (distinct : h.startedIds.Nodup)
    (legible : h.Legible id) (started : h.Started a.id id (.gossip members content)) {k : Packet}
    (there : k ∈ s.flight) (same : k.message.id = id) :
    ∃ graph, k.message.body = .gossip members content graph := by
  obtain ⟨peer, exchange, began, -, -, carried⟩ := ledger.exchanges k there
  obtain ⟨-, rfl⟩ := History.Started.unique distinct started (same ▸ began)
  exact (carried (same ▸ legible)).exists_graph

/-- The peers to which a member passes a gossip on, save for the one it came from. -/
theorem Ledger.passes (ledger : d.Ledger h s) (mem : m ∈ d.members) {near q : PeerId}
    {message : Message} (shares : d.Shares members m.id q) :
    q = m.id ∨ q = near ∨ ∃ k ∈ packets (Engine.address (d.surroundings m).directory
      (members.filter fun peer =>
        !(s.engine m.id).identity.contains peer && some peer ≠ some near) message), k.far = q := by
  obtain ⟨linked, member⟩ := shares
  by_cases self : q = m.id
  · exact .inl self
  · by_cases back : q = near
    · exact .inr (.inl back)
    · refine .inr (.inr (exists_mem_packets (List.mem_filter.2 ⟨member, ?_⟩) linked))
      simp [ledger.foreign mem linked self, back]

/-- A member handles a copy of the gossip. -/
theorem Spread.copy (spread : d.Spread a members content id h s) (ledger : d.Ledger h s)
    (legible : History.Legible (h ++ [deed]) id) (retains : d.Retains (h ++ [deed]))
    (started : h.Started a.id id (.gossip members content)) (mem : m ∈ d.members) {k : Packet}
    {rest : Multiset Packet} (taken : s.flight = k ::ₘ rest) (arrived : k.far = m.id)
    (same : k.message.id = id) {step : Step Outcome}
    (call : (s.engine m.id).handle (d.surroundings m) (some k.near) k.message = step)
    (own : deed.peer = m.id) (offered : deed.offered = step.offered)
    (event : deed.event = step.result.event?) :
    d.Spread a members content id (h ++ [deed]) (s.after m.id step.engine rest step.offered) := by
  obtain ⟨graph, body⟩ := ledger.gossip_body (History.nodup_startedIds retains.distinct)
    legible.earlier started (taken ▸ Multiset.mem_cons_self ..) same
  have recalls : ∀ p, (s.after m.id step.engine rest deed.offered).Recalls id p ↔
      s.Recalls id p ∨ p = m.id := by
    refine fun p => retains.recalls_after ledger mem (started.mono _).mem ?_ p
    rw [← call, ← same]
    exact Engine.handle_gossip_stores body
  have mine : ∀ o ∈ deed.offered, o.message.id = id := by
    intro o offer
    rw [offered, ← call] at offer
    exact (Engine.handle_onward offer).id.trans same
  rw [← offered]
  by_cases known : s.Recalls id m.id
  · obtain ⟨nothing, untold⟩ :=
      Engine.handle_of_known_gossip (s := d.surroundings m) body (same ▸ known)
    rw [call] at nothing untold
    rw [same, ← event] at untold
    refine spread.receive ledger legible taken arrived same recalls own mine ?_ (absurd known) ?_ ?_
    · simp [offered, nothing]
    · rw [if_pos known, List.countP_eq_zero]
      intro told there
      simp [untold told (Option.mem_toList.1 there)]
    · intro told found sort
      rw [untold told found] at sort
      cases sort
  · have new : (s.engine m.id).seen.contains k.message.id = false := by
      rw [same]
      exact Bool.eq_false_iff.2 known
    obtain ⟨told, passed⟩ := Engine.handle_of_new_gossip (d.surroundings m) (some k.near) body new
    rw [call] at passed told
    rw [← event, same] at told
    refine spread.receive ledger legible taken arrived same recalls own mine ?_ ?_ ?_ ?_
    · intro k' there
      rw [offered, passed] at there
      obtain ⟨asked, -, whole⟩ := mem_packets_address.1 there
      exact ⟨by rw [whole], (List.mem_filter.1 asked).1⟩
    · intro _ q shares
      rw [offered, passed]
      exact ledger.passes mem shares
    · rw [told, if_neg known]
      simp [Event.isGossip]
    · intro event' found _
      rw [told] at found
      cases found
      exact ⟨_, _, rfl⟩

/-- A gossip that is started is in flight to the neighbours that are members. -/
theorem Spread.begin (ledger : d.Ledger h s) (advance : d.Advance s deed next)
    (legible : History.Legible (h ++ [deed]) id) (retains : d.Retains (h ++ [deed]))
    (first : a ∈ d.members) (own : deed.peer = a.id)
    (began : deed.started? = some (id, .gossip members content)) :
    d.Spread a members content id (h ++ [deed]) next := by
  have unknown := History.unknown_of_nodup retains.distinct began
  have unseen := ledger.contains_eq_false unknown
  have known := (h.started_concat own began).mem
  obtain ⟨ticket, step, call, rfl, rfl⟩ := advance.call_of_started first own began
  have offered : step.offered = Engine.address (d.directory a.id)
      (members.filter fun peer => !(s.engine a.id).identity.contains peer)
      ⟨id, [(s.engine a.id).primary], .gossip members content
        (.single (s.engine a.id).primary [(s.engine a.id).settings.linkLabel])⟩ := by
    rw [← call]
    rfl
  have recalls : ∀ m ∈ d.members,
      (s.after a.id step.engine s.flight step.offered).Recalls id m.id ↔ m.id = a.id := by
    intro m there
    rw [retains.recalls_after ledger first known (call ▸ SeenCache.exists_observe_eq_put ..),
      Scene.Recalls, unseen m there]
    simp
  have flight : (s.after a.id step.engine s.flight step.offered).about id =
      packets step.offered := by
    have mine : ∀ o ∈ step.offered, o.message.id = id := by
      intro o offer
      rw [← call] at offer
      exact (Engine.start_offers offer).1
    rw [Scene.about_after_of_own mine (legible.read mine), ← Scene.about,
      ledger.about_eq_zero unknown, zero_add]
  have untold := ledger.untold unknown (fun _ => Event.id_of_isGossip)
  have quiet : ∀ p, History.emitted (h ++ [(⟨a.id, .start ticket (.gossip members content), id,
      step.offered, none⟩ : Deed)]) p = h.emitted p := by
    intro p
    rw [History.emitted_append, History.emitted_singleton]
    simp
  constructor
  · exact (recalls a first).2 rfl
  · intro m there recalled
    rw [(recalls m there).1 recalled]
  · intro k there
    rw [flight, offered] at there
    obtain ⟨asked, -, whole⟩ := mem_packets_address.1 there
    rw [whole]
    exact ⟨(recalls a first).2 rfl, (List.mem_filter.1 asked).1⟩
  · rintro m there recalled q ⟨linked, member⟩
    rw [(recalls m there).1 recalled] at linked
    by_cases self : q = a.id
    · exact .inl (self ▸ (recalls a first).2 rfl)
    · refine .inr ?_
      rw [flight, offered]
      refine exists_mem_packets (List.mem_filter.2 ⟨member, ?_⟩) linked
      simp [ledger.foreign first linked self]
  · intro m there
    rw [if_neg fun both => both.1 ((recalls m there).1 both.2), List.countP_eq_zero, quiet]
    exact fun event told => by simp [untold m.id event told]
  · intro m there event told sort
    rw [quiet] at told
    rw [untold m.id event told] at sort
    cases sort

/-- Every later deed keeps the account of a gossip. -/
theorem Spread.advance (spread : d.Spread a members content id h s) (ledger : d.Ledger h s)
    (advance : d.Advance s deed next) (legible : History.Legible (h ++ [deed]) id)
    (retains : d.Retains (h ++ [deed]))
    (started : h.Started a.id id (.gossip members content)) :
    d.Spread a members content id (h ++ [deed]) next := by
  cases advance with
  | @start m mem ticket other exchange step call =>
    have differ : id ≠ other := by
      rintro rfl
      exact History.unknown_of_nodup retains.distinct rfl started.mem
    subst call
    exact spread.other ledger retains mem Engine.start_keeps differ (h.started_concat rfl rfl).mem
      rfl (fun o offer => (Engine.start_offers offer).1) (by simp)
  | @handle m mem k rest taken arrived other frame read step call =>
    by_cases same : k.message.id = id
    · exact spread.copy ledger legible retains started mem taken arrived same call rfl rfl rfl
    · have about : rest.filter (·.message.id = id) = s.about id := by
        rw [Scene.about, taken, Multiset.filter_cons, if_neg same, zero_add]
      obtain ⟨peer, exchange, began, -⟩ :=
        ledger.exchanges k (taken ▸ Multiset.mem_cons_self ..)
      subst call
      exact spread.other ledger retains mem Engine.handle_keeps (Ne.symm same) (began.mono _).mem
        about (fun o offer => (Engine.handle_onward offer).id)
        fun event found => Engine.handle_event found
  | idle idle => exact spread.idle idle

/-- A gossip is accounted for in every scene after its start. -/
theorem Reaches.spread (reaches : d.Reaches h s) (legible : h.Legible id) (retains : d.Retains h)
    (first : a ∈ d.members) (started : h.Started a.id id (.gossip members content)) :
    d.Spread a members content id h s := by
  refine reaches.sinceStart (fun h => h.Legible id ∧ d.Retains h)
    (d.Spread a members content id) ?_ ?_ ?_ ⟨legible, retains⟩ started
  · exact fun ⟨legible, retains⟩ => ⟨legible.earlier, retains.earlier⟩
  · intro h s deed next reaches advance ⟨legible, retains⟩ own began
    exact .begin reaches.ledger advance legible retains first own began
  · intro h s deed next reaches advance ⟨legible, retains⟩ started spread
    exact spread.advance reaches.ledger advance legible retains started

/-- A member was shown a gossip if it remembers one that it did not start. -/
theorem Spread.shown_iff (spread : d.Spread a members content id h s) (mem : m ∈ d.members)
    (away : m.id ≠ a.id) :
    (∃ event ∈ h.emitted m.id, event.isGossip id = true) ↔ s.Recalls id m.id := by
  rw [← List.countP_pos_iff, spread.shown m mem]
  by_cases recalled : s.Recalls id m.id <;> simp [away, recalled]

/-- When no message is in flight, those that a gossip can reach over members remember it. -/
theorem Spread.recalls_of_path (spread : d.Spread a members content id h s) (silent : s.flight = 0)
    (first : a ∈ d.members) {p : PeerId} (path : Relation.ReflTransGen (d.Shares members) a.id p) :
    s.Recalls id p := by
  induction path with
  | refl => exact spread.origin
  | @tail x y before shares ih =>
    obtain ⟨n, known, rfl⟩ : ∃ n ∈ d.members, n.id = x := by
      cases before with
      | refl => exact ⟨a, first, rfl⟩
      | tail _ last => exact last.1.member
    refine (spread.cover n known ih y shares).resolve_right ?_
    rintro ⟨k, coming, -⟩
    rw [Scene.about, silent, Multiset.filter_zero] at coming
    cases Multiset.notMem_zero k coming

/-- At any time, the node that started a gossip was not shown it, and any other node was shown it once
at most, with its content and its members. When no frame is in flight, the nodes that were shown it
are those to which links lead from the first node over members of the gossip alone. -/
theorem gossip_delivery {ids : Nat → MessageId} {n : Network} (runs : d.Runs ids h n)
    (distinct : h.startedIds.Nodup) (legible : h.Legible id) (first : a ∈ d.members)
    (room : ∀ m ∈ d.members, h.startedIds.length ≤ m.settings.seenCapacity)
    (started : h.Started a.id id (.gossip members content)) :
    (h.emitted a.id).countP (Event.isGossip id) = 0 ∧
    (∀ m ∈ d.members, (h.emitted m.id).countP (Event.isGossip id) ≤ 1) ∧
    (∀ m ∈ d.members, ∀ event ∈ h.emitted m.id, event.isGossip id = true →
      ∃ graph sender, event = .gossipReceived id content members graph sender) ∧
    (n.Silent → ∀ m ∈ d.members, m ≠ a →
      ((∃ event ∈ h.emitted m.id, event.isGossip id = true) ↔
        Relation.ReflTransGen (d.Shares members) a.id m.id)) := by
  obtain ⟨s, reaches, reflects⟩ := runs.reaches
  have spread := reaches.spread legible ⟨distinct, room⟩ first started
  refine ⟨?_, ?_, spread.carried, fun silent m mem apart => ?_⟩
  · rw [spread.shown a first, if_neg fun both => both.1 rfl]
  · intro m mem
    rw [spread.shown m mem]
    split <;> omega
  · have away : m.id ≠ a.id := fun same => apart (eq_of_id_eq mem first same)
    rw [spread.shown_iff mem away]
    exact ⟨spread.reached m mem, spread.recalls_of_path (reflects.flight_eq_zero silent) first⟩

/-- One of two linked members is shown what the other one says to it. -/
theorem gossip_delivery_pair :
    ∃ event ∈ ((pair false).trial (fun _ => .zero) ⟨"A"⟩ (.gossip [⟨"B"⟩] .null) 9).1.emitted ⟨"B"⟩,
      event.isGossip .zero = true := by
  have runs := (pair false).runs_trial (fun _ => .zero) ⟨"A"⟩ (.gossip [⟨"B"⟩] .null) 9
    (by decide +kernel)
  generalize tried : (pair false).trial (fun _ => .zero) ⟨"A"⟩ (.gossip [⟨"B"⟩] .null) 9 = r
    at runs ⊢
  obtain ⟨distinct, legible, silent, started, room⟩ : r.1.startedIds.Nodup ∧ r.1.Legible .zero ∧
      r.2.Silent ∧ r.1.Started (Member.plain ⟨"A"⟩ false).id .zero (.gossip [⟨"B"⟩] .null) ∧
      ∀ m ∈ (pair false).members, r.1.startedIds.length ≤ m.settings.seenCapacity := by
    subst tried
    decide +kernel
  have apart : Member.plain ⟨"B"⟩ false ≠ .plain ⟨"A"⟩ false := fun same =>
    absurd (congrArg Member.id same) (by decide)
  have shares : (pair false).Shares [⟨"B"⟩] ⟨"A"⟩ ⟨"B"⟩ := ⟨.inl (by simp [pair]), by simp⟩
  have delivery := gossip_delivery runs distinct legible (by simp [pair]) room started
  exact (delivery.2.2.2 silent (.plain ⟨"B"⟩ false) (by simp [pair]) apart).2 (.single shares)

end Deployment

end TrustMesh
