import TrustMesh.Proofs.Mesh.Gossip
import TrustMesh.Proofs.Mesh.QueryFlood

/-!
# Gossips end where rings are dammed

A gossip does not consult its route, so only the memories of nodes stop it. It does not turn
back either, so while it drifts over nodes that forget, it repeats no peer unless it goes
round a ring of such nodes. Where every ring has a node that can remember all exchanges
(`Deployment.Dammed`), the load of a gossip is what its copies can cost before they meet
such a node, and what is to spare are the exchanges that such nodes have not seen: each of
them passes a gossip on once. `gossip_floods_end` follows for any exchanges, gossips among
them.

A ring of nodes that all forget does not dam gossips, whatever their number is.
-/

namespace TrustMesh

open Std

/-- The greatest number of peers that a gossip of the history is meant for. -/
def History.breadth (h : History) : Nat :=
  (h.map fun deed =>
    match deed.started? with
    | some (_, .gossip members _) => members.length
    | _ => 0).foldr max 0

theorem History.length_le_breadth {h : History} {peer : PeerId} {id : MessageId}
    {members : List PeerId} {content : Json} (started : h.Started peer id (.gossip members content)) :
    members.length ≤ h.breadth := by
  obtain ⟨deed, there, -, began⟩ := started
  refine List.le_max_of_le' 0 (List.mem_map.2 ⟨deed, there, rfl⟩) ?_
  rw [began]

/-- With more room, a message can cost more. -/
theorem fan_mono (peers : Nat) : Monotone (fan peers) := by
  refine monotone_nat_of_le_succ fun room => ?_
  rw [fan]
  nlinarith

/-- What a fan leaves pays for so many copies. -/
theorem mul_fan_le {copies peers : Nat} (few : copies ≤ peers) (room : Nat) :
    copies * (fan peers room + 1) ≤ fan peers (room + 1) := by
  rw [fan]
  exact Nat.mul_le_mul (by omega) (by omega)

namespace Deployment

variable {d : Deployment} {h : History} {s : Scene} {m : Member} {k : Packet}

/-- A gossip in flight is meant for the peers that it was started for. -/
theorem Reaches.announced (reaches : d.Reaches h s) : ∀ k ∈ s.flight, ∀ members content graph,
    k.message.body = .gossip members content graph →
      ∃ peer content, h.Started peer k.message.id (.gossip members content) := by
  refine reaches.flight_induction (fun h k => ∀ members content graph,
    k.message.body = .gossip members content graph →
      ∃ peer content, h.Started peer k.message.id (.gossip members content)) ?_ ?_ ?_
  · intro h deed k announced members content graph body
    obtain ⟨peer, content, started⟩ := announced members content graph body
    exact ⟨peer, content, started.mono _⟩
  · intro h s m id exchange o k prior mem offer arrives deed own began members content graph body
    have read := (o.read_of_arrival arrives).2
    obtain ⟨other, gathered, same⟩ := Message.members_of_decode read body
    obtain ⟨whose, -, carried, -⟩ := Engine.start_offers offer
    rw [same] at carried
    cases carried.eq_gossip
    rw [(Message.kept_of_decode read).1, whose]
    exact ⟨m.id, other, h.started_concat own began⟩
  · intro h s m k o l prior mem there arrived announced offer arrives members content graph body
    have read := (o.read_of_arrival arrives).2
    obtain ⟨other, gathered, same⟩ := Message.members_of_decode read body
    have onward := Engine.handle_onward offer
    obtain ⟨exchange, carries⟩ := k.message.body.exists_carries
    have carried := onward.carried exchange carries
    rw [same] at carried
    cases carried.eq_gossip
    obtain ⟨before, was⟩ := carries.exists_graph
    rw [(Message.kept_of_decode read).1, onward.id]
    exact announced members other before was

/-! ## What is to spare -/

/-- Those of some exchanges that a peer does not remember. -/
def unseenBy (ids : List MessageId) (s : Scene) (p : PeerId) : Finset MessageId :=
  ids.toFinset.filter fun id => (s.engine p).seen.contains id = false

/-- How many of some exchanges are yet to be seen by nodes that can remember all of them. -/
def unseen (d : Deployment) (ids : List MessageId) (s : Scene) : Nat :=
  ((d.members.filter fun m => ids.length ≤ m.settings.seenCapacity).map fun m =>
    (unseenBy ids s m.id).card).sum

theorem unseen_le (d : Deployment) (ids : List MessageId) (s : Scene) :
    d.unseen ids s ≤ d.members.length * ids.length :=
  sum_le_of_each (List.length_filter_le ..) fun _ _ =>
    (Finset.card_filter_le ..).trans ids.toFinset_card_le

section Memory

variable {ids : List MessageId} (ledger : d.Ledger h s) (known : ∀ id ∈ h.startedIds, id ∈ ids)
  (mem : m ∈ d.members) {id : MessageId} {engine : Engine}
  (keeps : (s.engine m.id).Keeps id engine) (own : id ∈ ids) {rest : Multiset Packet}
  {offered : List Dispatch}

include ledger known keeps own

/-- What a node with room remembers it does not forget. -/
theorem unseenBy_after_subset {other : Member} (there : other ∈ d.members)
    (room : ids.length ≤ other.settings.seenCapacity) :
    unseenBy ids (s.after m.id engine rest offered) other.id ⊆ unseenBy ids s other.id := by
  intro probe fresh
  obtain ⟨mem, fresh⟩ := Finset.mem_filter.1 fresh
  refine Finset.mem_filter.2 ⟨mem, Bool.eq_false_iff.2 fun seen => ?_⟩
  by_cases same : other.id = m.id
  · rw [same] at seen fresh
    rw [Scene.engine_after_self] at fresh
    have within := ((ledger.seen other there).mono known)
    rw [same] at within
    rw [SeenCache.contains_of_room keeps.seen within own room seen] at fresh
    cases fresh
  · rw [Scene.engine_after_of_ne same, seen] at fresh
    cases fresh

theorem unseen_after_le :
    d.unseen ids (s.after m.id engine rest offered) ≤ d.unseen ids s := by
  refine List.sum_le_sum fun other there => ?_
  obtain ⟨there, room⟩ := List.mem_filter.1 there
  exact Finset.card_le_card
    (unseenBy_after_subset ledger known keeps own there (of_decide_eq_true room))

include mem

/-- An exchange that is new to a node with room was to spare until then. -/
theorem unseen_after_lt (room : ids.length ≤ m.settings.seenCapacity)
    (new : (s.engine m.id).seen.contains id = false)
    (stored : ∃ value, engine.seen.entries = (s.engine m.id).seen.entries.put id value) :
    d.unseen ids (s.after m.id engine rest offered) < d.unseen ids s := by
  refine List.sum_lt_sum _ _ (fun other there => ?_)
    ⟨m, List.mem_filter.2 ⟨mem, decide_eq_true room⟩, ?_⟩
  · obtain ⟨there, room⟩ := List.mem_filter.1 there
    exact Finset.card_le_card
      (unseenBy_after_subset ledger known keeps own there (of_decide_eq_true room))
  · obtain ⟨value, stored⟩ := stored
    have seen := SeenCache.contains_of_put stored ((ledger.seen m mem).mono known) own room
    refine Finset.card_lt_card ((Finset.ssubset_iff_of_subset
      (unseenBy_after_subset ledger known keeps own mem room)).2 ⟨id, ?_, ?_⟩)
    · exact Finset.mem_filter.2 ⟨List.mem_toFinset.2 own, new⟩
    · intro fresh
      have fresh := (Finset.mem_filter.1 fresh).2
      rw [Scene.engine_after_self, seen] at fresh
      cases fresh

end Memory

/-! ## What gossips cost -/

/-- The load of a message where so many exchanges are to be remembered and gossips are meant for so
many peers at most. -/
def toll (d : Deployment) (exchanges breadth : Nat) (k : Packet) : Nat :=
  if k.message.body.kind = .gossip then
    fan breadth (d.members.length - (d.drift exchanges k.message.route).length)
  else d.load k

theorem toll_of_gossip {exchanges breadth : Nat} (gossip : k.message.body.kind = .gossip) :
    d.toll exchanges breadth k =
      fan breadth (d.members.length - (d.drift exchanges k.message.route).length) := if_pos gossip

theorem toll_of_ne_gossip {exchanges breadth : Nat} (other : k.message.body.kind ≠ .gossip) :
    d.toll exchanges breadth k = d.load k := if_neg other

theorem toll_congr {exchanges breadth : Nat} {l : Packet} (same : k.Resembles l) :
    d.toll exchanges breadth k = d.toll exchanges breadth l := by
  rw [toll, toll, same.kind, same.route, load_congr same]

/-- What is offered costs its loads if it is no gossip. -/
theorem map_toll_eq {exchanges breadth : Nat} {offered : List Dispatch}
    (other : ∀ o ∈ offered, o.message.body.kind ≠ .gossip) :
    (offered.map fun o => d.toll exchanges breadth o.packet + 1) =
      offered.map fun o => d.load o.packet + 1 :=
  List.map_congr_left fun o offer => congrArg (· + 1) (toll_of_ne_gossip (other o offer))

/-- A gossip that goes on over nodes that forget leaves fewer peers to drift over. -/
theorem Course.length_drift_lt {exchanges : Nat} (course : d.Course k) (mem : m ∈ d.members)
    (arrived : k.far = m.id) (linked : d.Linked k.near k.far)
    (gossip : k.message.body.kind = .gossip) (dammed : d.Dammed exchanges)
    (full : ¬ d.Roomy exchanges m.id) :
    (d.drift exchanges k.message.route).length < d.members.length := by
  have straight := course.straight gossip
  rw [arrived] at straight
  have simple := dammed.nodup_drift straight
    (course.walked_concat arrived linked (by rw [gossip]; rfl))
  have known : ∀ q ∈ d.drift exchanges (k.message.route ++ [m.id]), ∃ n ∈ d.members, n.id = q :=
    fun q there => course.known_concat mem q ((List.rtakeWhile_suffix ..).mem there)
  have short := length_le_of_known simple known
  rw [drift_concat_of_not_roomy full, List.length_append, List.length_singleton] at short
  exact short

section Gossip

variable {ids : List MessageId} {breadth : Nat} {members : List PeerId} {content : Json}
  {graph : Graph} {rest : Multiset Packet}

/-- Copies of a gossip that go on from a peer. -/
def Copied (k : Packet) (p : PeerId) (offered : List Dispatch) : Prop :=
  ∀ o ∈ offered, o.packet.message.body.kind = .gossip ∧
    o.packet.message.route = k.message.route ++ [p]

/-- What a gossip leads to are its copies, and there are none unless it is new to the node. -/
theorem copied_of_gossip (ledger : d.Ledger h s) (mem : m ∈ d.members)
    (gossip : k.message.body.kind = .gossip) {step : Step Outcome}
    (call : (s.engine m.id).handle (d.surroundings m) (some k.near) k.message = step) :
    Copied k m.id step.offered ∧
      (step.offered ≠ [] → (s.engine m.id).seen.contains k.message.id = false) := by
  have each : ∀ o ∈ step.offered, (s.engine m.id).seen.contains k.message.id = false ∧
      o.packet.message.body.kind = .gossip ∧
        o.packet.message.route = k.message.route ++ [m.id] := by
    intro o offer
    rw [← call] at offer
    cases Engine.handle_passes offer with
    | onward asks => rw [gossip] at asks; cases asks
    | answer asks => rw [gossip] at asks; cases asks
    | back answers => rw [gossip] at answers; cases answers
    | spread _ new copies _ =>
      have same : o.packet.message = _ := copies
      rw [same, (ledger.serves mem).primary]
      exact ⟨new, rfl, rfl⟩
  refine ⟨fun o offer => (each o offer).2, fun some => ?_⟩
  exact (each _ (List.head_mem some)).1

/-- The copies that a node with room passes on. -/
theorem cost_le_of_roomy {offered : List Dispatch} (copied : Copied k m.id offered)
    (roomy : d.Roomy ids.length m.id) (few : offered.length ≤ breadth) :
    (offered.map fun o => d.toll ids.length breadth o.packet + 1).sum ≤
      fan breadth (d.members.length + 1) := by
  refine (sum_le_of_each few fun o offer => ?_).trans (mul_fan_le le_rfl _)
  obtain ⟨gossip, route⟩ := copied o offer
  rw [toll_of_gossip gossip, route, drift_concat_of_roomy roomy]
  exact le_rfl

/-- The copies that any other node passes on. -/
theorem cost_le_of_full {offered : List Dispatch} (copied : Copied k m.id offered)
    (course : d.Course k) (mem : m ∈ d.members) (arrived : k.far = m.id)
    (linked : d.Linked k.near k.far) (gossip : k.message.body.kind = .gossip)
    (dammed : d.Dammed ids.length) (full : ¬ d.Roomy ids.length m.id)
    (few : offered.length ≤ breadth) :
    (offered.map fun o => d.toll ids.length breadth o.packet + 1).sum ≤
      d.toll ids.length breadth k := by
  have short := course.length_drift_lt mem arrived linked gossip dammed full
  obtain ⟨left, more⟩ : ∃ left, d.members.length -
      (d.drift ids.length k.message.route).length = left + 1 :=
    ⟨d.members.length - (d.drift ids.length k.message.route).length - 1, by omega⟩
  rw [toll_of_gossip gossip, more]
  refine (sum_le_of_each few fun o offer => ?_).trans (mul_fan_le le_rfl _)
  obtain ⟨gossip, route⟩ := copied o offer
  rw [toll_of_gossip gossip, route, drift_concat_of_not_roomy full, List.length_append,
    List.length_singleton,
    show d.members.length - ((d.drift ids.length k.message.route).length + 1) = left by omega]

/-- What a gossip leads to is paid for by its load, or by what is no longer to spare. -/
theorem cost_le_of_gossip (course : d.Course k) (ledger : d.Ledger h s) (mem : m ∈ d.members)
    (there : k ∈ s.flight) (arrived : k.far = m.id)
    (body : k.message.body = .gossip members content graph) (few : members.length ≤ breadth)
    (known : ∀ id ∈ h.startedIds, id ∈ ids) (dammed : d.Dammed ids.length) {step : Step Outcome}
    (call : (s.engine m.id).handle (d.surroundings m) (some k.near) k.message = step) :
    (step.offered.map fun o => d.toll ids.length breadth o.packet + 1).sum +
        fan breadth (d.members.length + 1) *
          d.unseen ids (s.after m.id step.engine rest step.offered) ≤
      fan breadth (d.members.length + 1) * d.unseen ids s + d.toll ids.length breadth k := by
  have gossip : k.message.body.kind = .gossip := by rw [body]; rfl
  obtain ⟨_, _, began, -⟩ := ledger.exchanges k there
  have own : k.message.id ∈ ids := known _ began.mem
  have keeps : (s.engine m.id).Keeps k.message.id step.engine := call ▸ Engine.handle_keeps
  have spare : d.unseen ids (s.after m.id step.engine rest step.offered) ≤ d.unseen ids s :=
    unseen_after_le ledger known keeps own
  have spare := Nat.mul_le_mul_left (fan breadth (d.members.length + 1)) spare
  obtain ⟨copied, new⟩ := copied_of_gossip ledger mem gossip call
  have short : step.offered.length ≤ breadth :=
    (call ▸ Engine.length_offered_of_gossip body).trans few
  by_cases roomy : d.Roomy ids.length m.id
  · have cost := cost_le_of_roomy copied roomy short
    obtain ⟨other, member, same, room⟩ := roomy
    cases eq_of_id_eq member mem same
    by_cases none : step.offered = []
    · rw [none] at spare ⊢
      rw [List.map_nil, List.sum_nil]
      omega
    · have fewer : d.unseen ids (s.after m.id step.engine rest step.offered) < d.unseen ids s :=
        unseen_after_lt ledger known mem keeps own room (new none)
          (call ▸ Engine.handle_gossip_stores body)
      have paid := Nat.mul_le_mul_left (fan breadth (d.members.length + 1)) fewer
      rw [Nat.succ_eq_add_one, Nat.mul_add, Nat.mul_one] at paid
      omega
  · have cost := cost_le_of_full copied course mem arrived (ledger.linked k there) gossip dammed
      roomy short
    omega

/-- What is no gossip costs no more than it did without gossips. -/
theorem cost_le_of_other (course : d.Course k) (ledger : d.Ledger h s) (mem : m ∈ d.members)
    (there : k ∈ s.flight) (arrived : k.far = m.id) (other : k.message.body.kind ≠ .gossip)
    (known : ∀ id ∈ h.startedIds, id ∈ ids) {step : Step Outcome}
    (call : (s.engine m.id).handle (d.surroundings m) (some k.near) k.message = step) :
    (step.offered.map fun o => d.toll ids.length breadth o.packet + 1).sum +
        fan breadth (d.members.length + 1) *
          d.unseen ids (s.after m.id step.engine rest step.offered) ≤
      fan breadth (d.members.length + 1) * d.unseen ids s + d.toll ids.length breadth k := by
  obtain ⟨_, _, began, -⟩ := ledger.exchanges k there
  have keeps : (s.engine m.id).Keeps k.message.id step.engine := call ▸ Engine.handle_keeps
  have spare : d.unseen ids (s.after m.id step.engine rest step.offered) ≤ d.unseen ids s :=
    unseen_after_le ledger known keeps (known _ began.mem)
  have spare := Nat.mul_le_mul_left (fan breadth (d.members.length + 1)) spare
  have cost : (step.offered.map fun o => d.load o.packet + 1).sum ≤ d.load k := by
    rw [← call]
    rcases MessageKind.sorts k.message.body.kind with request | answer | gossip
    · exact cost_le_of_request course mem (ledger.serves mem) request
    · exact cost_le_of_answer course mem (ledger.serves mem) arrived answer
    · exact absurd gossip other
  rw [toll_of_ne_gossip other, map_toll_eq fun o offer =>
    (Engine.handle_passes (call ▸ offer)).ne_gossip other]
  omega

/-- The first messages of an exchange cost no more than what one node passes on of a gossip, and a
request that has passed no peer. -/
theorem cost_le_of_anyStart (mem : m ∈ d.members) {e : Engine} {id : MessageId} {exchange : Exchange}
    (few : ∀ members content, exchange = .gossip members content → members.length ≤ breadth) :
    ((e.start (d.surroundings m) id exchange).offered.map fun o =>
      d.toll ids.length breadth o.packet + 1).sum ≤
        fan breadth (d.members.length + 1) + fan d.members.length d.members.length := by
  cases asks : exchange.asks with
  | true =>
    have cost : ((e.start (d.surroundings m) id exchange).offered.map fun o =>
      d.load o.packet + 1).sum ≤ _ := cost_le_of_start mem asks
    rw [map_toll_eq fun o offer => (Engine.start_offers offer).2.2.1.admits.ne_gossip asks]
    omega
  | false =>
    cases exchange with
    | gossip members content =>
      refine (sum_le_of_each (Engine.length_startGossip_le.trans (few members content rfl))
        fun o offer => ?_).trans ((mul_fan_le le_rfl d.members.length).trans (Nat.le_add_right ..))
      obtain ⟨-, -, carried, -⟩ := Engine.start_offers offer
      obtain ⟨graph, body⟩ := carried.exists_graph
      have gossip : o.packet.message.body.kind = .gossip := congrArg Body.kind body
      rw [toll_of_gossip gossip]
      exact Nat.succ_le_succ (fan_mono breadth (Nat.sub_le ..))
    | trace target => cases asks
    | comply framework => cases asks

/-- The exchanges that were started have these identifiers, and their gossips are meant for so many
peers at most. -/
structure Measured (ids : List MessageId) (breadth : Nat) (h : History) : Prop where
  known : ∀ id ∈ h.startedIds, id ∈ ids
  few : ∀ peer id members content, h.Started peer id (.gossip members content) →
    members.length ≤ breadth

theorem Measured.earlier (measured : Measured ids breadth (h ++ [deed])) :
    Measured ids breadth h where
  known id there := measured.known id (by
    rw [History.startedIds_append]
    exact List.mem_append_left _ there)
  few peer id members content started := measured.few peer id members content (started.mono _)

/-- The first messages of an exchange, and what is to spare after them, cost the price of one. -/
theorem Measured.cost_of_start (reaches : d.Reaches h s) (mem : m ∈ d.members) {ticket : Nat}
    {id : MessageId} {exchange : Exchange} {step : Step Started}
    (call : (s.engine m.id).start (d.surroundings m) id exchange = step)
    (measured : Measured ids breadth
      (h ++ [⟨m.id, .start ticket exchange, id, step.offered, none⟩])) :
    (step.offered.map fun o => d.toll ids.length breadth o.packet + 1).sum +
        fan breadth (d.members.length + 1) *
          d.unseen ids (s.after m.id step.engine s.flight step.offered) ≤
      fan breadth (d.members.length + 1) * d.unseen ids s +
        (fan breadth (d.members.length + 1) + fan d.members.length d.members.length) := by
  have began : History.Started (h ++ [⟨m.id, .start ticket exchange, id, step.offered, none⟩])
    m.id id exchange := History.started_concat h rfl rfl
  have keeps : (s.engine m.id).Keeps id step.engine := call ▸ Engine.start_keeps
  have spare : d.unseen ids (s.after m.id step.engine s.flight step.offered) ≤ d.unseen ids s :=
    unseen_after_le reaches.ledger measured.earlier.known keeps (measured.known _ began.mem)
  have spare := Nat.mul_le_mul_left (fan breadth (d.members.length + 1)) spare
  have cost : (step.offered.map fun o => d.toll ids.length breadth o.packet + 1).sum ≤ _ :=
    call ▸ cost_le_of_anyStart mem fun members content same =>
      measured.few m.id id members content (same ▸ began)
  omega

/-- What a message leads to, and what is to spare after it, is paid for by what was to spare before and
the load of the message. -/
theorem Measured.cost_of_handle (measured : Measured ids breadth h) (dammed : d.Dammed ids.length)
    (reaches : d.Reaches h s) (mem : m ∈ d.members) (there : k ∈ s.flight) (arrived : k.far = m.id)
    {step : Step Outcome}
    (call : (s.engine m.id).handle (d.surroundings m) (some k.near) k.message = step) :
    (step.offered.map fun o => d.toll ids.length breadth o.packet + 1).sum +
        fan breadth (d.members.length + 1) *
          d.unseen ids (s.after m.id step.engine rest step.offered) ≤
      fan breadth (d.members.length + 1) * d.unseen ids s + d.toll ids.length breadth k := by
  have ledger := reaches.ledger
  have course := reaches.course k there
  cases body : k.message.body with
  | gossip members content graph =>
    obtain ⟨peer, other, started⟩ := reaches.announced k there members content graph body
    exact cost_le_of_gossip course ledger mem there arrived body (measured.few _ _ _ _ started)
      measured.known dammed call
  | _ =>
    exact cost_le_of_other course ledger mem there arrived (by rw [body]; exact nofun)
      measured.known call

end Gossip

/-- The tariff of any exchanges with these identifiers whose gossips are meant for so many peers at
most. -/
def anyExchange (d : Deployment) (ids : List MessageId) (breadth : Nat)
    (dammed : d.Dammed ids.length) : Tariff d where
  Regime := Measured ids breadth
  load := d.toll ids.length breadth
  spare s := fan breadth (d.members.length + 1) * d.unseen ids s
  fund := fan breadth (d.members.length + 1) * (d.members.length * ids.length)
  price := fan breadth (d.members.length + 1) + fan d.members.length d.members.length
  earlier := Measured.earlier
  congr := toll_congr
  opens _ := Nat.mul_le_mul_left _ (unseen_le ..)
  starts reaches mem call measured := Measured.cost_of_start reaches mem call measured
  handles _ _ reaches mem there arrived call measured :=
    measured.cost_of_handle dammed reaches mem there arrived call

/-- Floods of any exchanges end where rings are dammed: if on every ring of links some node can
remember all that was started, no more frames are handled than were sent, so many are sent at most,
and frames are not handled without end. -/
theorem gossip_floods_end {ids : Nat → MessageId} {n : Network} (runs : d.Runs ids h n)
    (dammed : d.Dammed h.startedIds.dedup.length) :
    h.handled ≤ h.sent ∧
      h.sent ≤ (fan h.breadth (d.members.length + 1) + fan d.members.length d.members.length) *
        (d.members.length + 1) * h.startedIds.length ∧
      IsEmpty n.Endless := by
  have bounded : ∀ k next, k.Relays → d.Runs ids (h ++ k) next →
      (h ++ k).sent ≤ (fan h.breadth (d.members.length + 1) +
        fan d.members.length d.members.length) * (d.members.length + 1) * h.startedIds.length := by
    intro k next relays runs
    obtain ⟨s, reaches, -⟩ := runs.reaches
    have measured : Measured h.startedIds.dedup h.breadth (h ++ k) :=
      ⟨fun id there => List.mem_dedup.2 (relays.startedIds ▸ there),
        fun peer id members content started => History.length_le_breadth (relays.started started)⟩
    have paid := Tariff.sent_le (t := d.anyExchange h.startedIds.dedup h.breadth dammed) reaches
      measured
    rw [relays.startedIds] at paid
    simp only [anyExchange] at paid
    have distinct : h.startedIds.dedup.length ≤ h.startedIds.length :=
      (List.dedup_sublist _).length_le
    have fund := Nat.mul_le_mul
      (Nat.le_add_right (fan h.breadth (d.members.length + 1))
        (fan d.members.length d.members.length))
      (Nat.mul_le_mul_left d.members.length distinct)
    rw [Nat.mul_add, Nat.mul_one, Nat.add_mul, Nat.mul_assoc]
    omega
  refine ⟨runs.handled_le_sent, ?_, isEmpty_endless runs bounded⟩
  simpa using bounded [] n (List.forall_mem_nil _) (by simpa using runs)

/-- Two gossips among three nodes in a ring that remember two exchanges end. -/
theorem gossip_floods_end_triangle :
    IsEmpty ((triangle 2).session .ofNat [news, news] 2).2.Endless := by
  have runs := runs_session (triangle 2) .ofNat [news, news] 2 (by decide +kernel)
  have dammed : (triangle 2).Dammed
      ((triangle 2).session .ofNat [news, news] 2).1.startedIds.dedup.length :=
    dammed_of_room (by decide +kernel)
  exact (gossip_floods_end runs dammed).2.2

end Deployment

end TrustMesh
