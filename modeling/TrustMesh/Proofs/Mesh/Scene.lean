import Mathlib.Data.Multiset.Filter
import Mathlib.Logic.Function.Basic
import TrustMesh.Proofs.Mesh.Run
import TrustMesh.Proofs.Message.Codec
import TrustMesh.Proofs.Relay.Engine

/-!
# Scenes

A scene is what the engines of a deployment and the messages in flight amount to: inboxes,
frames and buffers of events are left out, and what is in flight has no order.

`Deployment.Advance` is one deed on a scene: the engine of a member starts an exchange or
handles any one message in flight to it. Facts about a single exchange are proved of
scenes by `Reaches.sinceStart`: they hold when the exchange starts and every later deed
keeps them. What is said of every message in flight is proved by `Reaches.flight_induction`,
and `Reaches.exists_cause` goes back from an event to the message that caused it.
-/

namespace TrustMesh

open Std

/-- A message in flight, with the peers at the ends of its channel. -/
structure Packet where
  near : PeerId
  far : PeerId
  message : Message
deriving DecidableEq

/-- The packet of a message that is offered. -/
def Dispatch.packet (o : Dispatch) : Packet := ⟨o.link.near, o.link.far, o.message⟩

/-- The packets of messages that are offered. -/
def packets (offered : List Dispatch) : Multiset Packet := ↑(offered.map Dispatch.packet)

@[simp] theorem packets_nil : packets [] = 0 := rfl

@[simp] theorem packets_cons (o : Dispatch) (offered : List Dispatch) :
    packets (o :: offered) = o.packet ::ₘ packets offered := rfl

theorem packets_append (offered more : List Dispatch) :
    packets (offered ++ more) = packets offered + packets more := by
  rw [packets, List.map_append, ← Multiset.coe_add]
  rfl

theorem mem_packets {offered : List Dispatch} {k : Packet} :
    k ∈ packets offered ↔ ∃ o ∈ offered, o.packet = k := by
  simp [packets]

/-- The packet that a message arrives as: it holds what is read from the frame. -/
def Dispatch.arrival? (o : Dispatch) : Option Packet :=
  (Message.decode o.frame).toOption.map (⟨o.link.near, o.link.far, ·⟩)

/-- The packets that arrive. Messages that cannot be read are lost. -/
def arrivals (offered : List Dispatch) : Multiset Packet := ↑(offered.filterMap Dispatch.arrival?)

theorem arrivals_append (offered more : List Dispatch) :
    arrivals (offered ++ more) = arrivals offered + arrivals more := by
  rw [arrivals, List.filterMap_append, ← Multiset.coe_add]
  rfl

/-- A packet that arrives holds what is read from the frame of the message. -/
theorem Dispatch.read_of_arrival {o : Dispatch} {k : Packet} (arrives : o.arrival? = some k) :
    o.link = ⟨k.near, k.far⟩ ∧ Message.decode o.frame = .ok k.message := by
  obtain ⟨message, read, rfl⟩ := Option.map_eq_some_iff.1 arrives
  cases decoded : Message.decode o.frame with
  | ok other =>
    rw [decoded] at read
    cases read
    exact ⟨rfl, rfl⟩
  | error fault =>
    rw [decoded] at read
    cases read

theorem mem_arrivals {offered : List Dispatch} {k : Packet} (mem : k ∈ arrivals offered) :
    ∃ o ∈ offered, o.arrival? = some k := List.mem_filterMap.1 (Multiset.mem_coe.1 mem)

/-- Messages that are read as they were arrive as they were offered. -/
theorem arrivals_eq_packets {offered : List Dispatch}
    (read : ∀ o ∈ offered, Message.decode o.frame = .ok o.message) :
    arrivals offered = packets offered := by
  have each : ∀ o ∈ offered, o.arrival? = some o.packet := by
    intro o offer
    rw [Dispatch.arrival?, read o offer]
    rfl
  rw [arrivals, List.filterMap_congr each, List.filterMap_eq_map']
  rfl

instance : Inhabited Engine := ⟨⟨⟨default, ∅⟩, default, .empty 0, .empty 0⟩⟩

/-- The engines of all peers and the messages in flight. -/
structure Scene where
  engine : PeerId → Engine
  flight : Multiset Packet

namespace Scene

/-- The messages in flight that belong to an exchange. -/
def about (s : Scene) (id : MessageId) : Multiset Packet := s.flight.filter (·.message.id = id)

/-- The scene after a call of the engine of a peer. -/
def after (s : Scene) (peer : PeerId) (next : Engine) (rest : Multiset Packet)
    (offered : List Dispatch) : Scene :=
  ⟨Function.update s.engine peer next, rest + arrivals offered⟩

@[simp] theorem engine_after_self (s : Scene) (peer : PeerId) (next : Engine)
    (rest : Multiset Packet) (offered : List Dispatch) :
    (s.after peer next rest offered).engine peer = next := Function.update_self ..

theorem engine_after_of_ne {s : Scene} {peer other : PeerId} {next : Engine}
    {rest : Multiset Packet} {offered : List Dispatch} (differ : other ≠ peer) :
    (s.after peer next rest offered).engine other = s.engine other :=
  Function.update_of_ne differ ..

variable {s : Scene} {peer : PeerId} {next : Engine} {rest : Multiset Packet}
  {offered : List Dispatch} {id : MessageId}

/-- A message in flight was in flight before or is read from one of those offered. -/
theorem mem_flight_after {k : Packet} (mem : k ∈ (s.after peer next rest offered).flight) :
    k ∈ rest ∨ ∃ o ∈ offered, o.link = ⟨k.near, k.far⟩ ∧ Message.decode o.frame = .ok k.message :=
  (Multiset.mem_add.1 mem).imp_right fun arrived =>
    have ⟨o, offer, arrives⟩ := mem_arrivals arrived
    ⟨o, offer, o.read_of_arrival arrives⟩

/-- Messages of other exchanges that are offered do not count. -/
theorem about_after_of_other (other : ∀ o ∈ offered, o.message.id ≠ id) :
    (s.after peer next rest offered).about id = rest.filter (·.message.id = id) := by
  have foreign : (arrivals offered).filter (·.message.id = id) = 0 := by
    refine Multiset.filter_eq_nil.2 fun k there same => ?_
    obtain ⟨o, offer, arrives⟩ := mem_arrivals there
    have read := (o.read_of_arrival arrives).2
    exact other o offer ((Message.kept_of_decode read).1.symm.trans same)
  rw [about, after, Multiset.filter_add, foreign, Multiset.add_zero]

/-- Messages of the exchange that are offered and read as they were are in flight. -/
theorem about_after_of_own (own : ∀ o ∈ offered, o.message.id = id)
    (read : ∀ o ∈ offered, Message.decode o.frame = .ok o.message) :
    (s.after peer next rest offered).about id =
      rest.filter (·.message.id = id) + packets offered := by
  have all : (packets offered).filter (·.message.id = id) = packets offered := by
    refine Multiset.filter_eq_self.2 fun k there => ?_
    obtain ⟨o, offer, rfl⟩ := mem_packets.1 there
    exact own o offer
  rw [about, after, Multiset.filter_add, arrivals_eq_packets read, all]

/-- A scene in which nothing has happened yet. -/
structure Opening (d : Deployment) (s : Scene) : Prop where
  engine : ∀ m ∈ d.members, s.engine m.id =
    ⟨m.identity, m.settings, .empty m.settings.seenCapacity, .empty m.settings.seenCapacity⟩
  flight : s.flight = 0

end Scene

namespace Deployment

/-- What holds of the engine that was called, and held of the engines of all members, holds of them
after the call. -/
theorem forall_engine_after {d : Deployment} {s : Scene} {m : Member} (mem : m ∈ d.members)
    {called : Engine} {rest : Multiset Packet} {offered : List Dispatch}
    {motive : Member → Engine → Prop} (own : motive m called)
    (others : ∀ other ∈ d.members, motive other (s.engine other.id)) :
    ∀ other ∈ d.members, motive other ((s.after m.id called rest offered).engine other.id) := by
  intro other there
  by_cases same : other.id = m.id
  · cases eq_of_id_eq there mem same
    rwa [Scene.engine_after_self]
  · rw [Scene.engine_after_of_ne same]
    exact others other there

/-- One deed on a scene: a member starts an exchange or handles a message in flight to it, or the deed
comes to nothing, as when a frame cannot be read. -/
inductive Advance (d : Deployment) : Scene → Deed → Scene → Prop where
  | start {s : Scene} {m : Member} (mem : m ∈ d.members) (ticket : Nat) (id : MessageId)
      (exchange : Exchange) {step : Step Started}
      (call : (s.engine m.id).start (d.surroundings m) id exchange = step) :
      Advance d s ⟨m.id, .start ticket exchange, id, step.offered, none⟩
        (s.after m.id step.engine s.flight step.offered)
  | handle {s : Scene} {m : Member} (mem : m ∈ d.members) {k : Packet} {rest : Multiset Packet}
      (taken : s.flight = k ::ₘ rest) (arrived : k.far = m.id) (id : MessageId) {frame : Frame}
      (read : Message.decode frame = .ok k.message) {step : Step Outcome}
      (call : (s.engine m.id).handle (d.surroundings m) (some k.near) k.message = step) :
      Advance d s ⟨m.id, .deliver (some k.near) frame, id, step.offered, step.result.event?⟩
        (s.after m.id step.engine rest step.offered)
  | idle {s : Scene} {deed : Deed} (idle : deed.Idle) : Advance d s deed s

/-- A deed that starts an exchange is a call of the engine that starts it. -/
theorem Advance.call_of_started {d : Deployment} {s next : Scene} {deed : Deed}
    (advance : d.Advance s deed next) {m : Member} (mem : m ∈ d.members) {id : MessageId}
    {exchange : Exchange} (own : deed.peer = m.id) (began : deed.started? = some (id, exchange)) :
    ∃ ticket step, (s.engine m.id).start (d.surroundings m) id exchange = step ∧
      deed = ⟨m.id, .start ticket exchange, id, step.offered, none⟩ ∧
      next = s.after m.id step.engine s.flight step.offered := by
  cases advance with
  | start there ticket _ _ call =>
    cases began
    cases eq_of_id_eq there mem own
    exact ⟨ticket, _, call, rfl, rfl⟩
  | handle => cases began
  | idle idle =>
    rw [idle.started] at began
    cases began

/-- A scene is reached by these deeds. -/
inductive Reaches (d : Deployment) : History → Scene → Prop where
  | opening {s : Scene} (opening : s.Opening d) : Reaches d [] s
  | advance {history : History} {s next : Scene} {deed : Deed} (prior : Reaches d history s)
      (advance : d.Advance s deed next) : Reaches d (history ++ [deed]) next

/-- Every event was caused by a message that is known. -/
theorem Reaches.length_accepted {d : Deployment} {history : History} {s : Scene}
    (reaches : d.Reaches history s) (peer : PeerId) (sort : Event → Bool) :
    (history.accepted peer sort).length = (history.emitted peer).countP sort := by
  induction reaches with
  | opening => rfl
  | @advance history s next deed prior advance ih =>
    rw [History.accepted_append, History.emitted_append, List.length_append, List.countP_append, ih,
      History.accepted_singleton, History.emitted_singleton]
    congr 1
    cases advance with
    | start => simp
    | @handle m mem k rest taken arrived id frame read step call =>
      by_cases own : m.id = peer
      · cases told : step.result.event? with
        | none => simp
        | some event =>
          by_cases hit : sort event = true
          · simp [own, hit, Deed.received?, read, Except.toOption]
          · simp [own, hit]
      · simp [own]
    | idle idle => simp [idle.event]

/-- What holds of every message in flight: it holds of what arrives of the first messages of an exchange
and of those that a message leads to of which it holds, and every deed keeps it. -/
theorem Reaches.flight_induction {d : Deployment} (Holds : History → Packet → Prop)
    (keeps : ∀ {history deed k}, Holds history k → Holds (history ++ [deed]) k)
    (starts : ∀ {history s m id exchange o k}, d.Reaches history s → m ∈ d.members →
      o ∈ ((s.engine m.id).start (d.surroundings m) id exchange).offered → o.arrival? = some k →
      ∀ deed : Deed, deed.peer = m.id → deed.started? = some (id, exchange) →
        Holds (history ++ [deed]) k)
    (handles : ∀ {history s m k o l}, d.Reaches history s → m ∈ d.members → k ∈ s.flight →
      k.far = m.id → Holds history k →
      o ∈ ((s.engine m.id).handle (d.surroundings m) (some k.near) k.message).offered →
      o.arrival? = some l → Holds history l)
    {history : History} {s : Scene} (reaches : d.Reaches history s) :
    ∀ k ∈ s.flight, Holds history k := by
  induction reaches with
  | opening opening =>
    intro k there
    rw [opening.flight] at there
    cases Multiset.notMem_zero k there
  | advance prior advance ih =>
    cases advance with
    | start mem ticket id exchange call =>
      subst call
      intro k there
      rcases Multiset.mem_add.1 there with old | arrived
      · exact keeps (ih k old)
      · obtain ⟨o, offer, arrives⟩ := mem_arrivals arrived
        exact starts prior mem offer arrives _ rfl rfl
    | @handle m mem packet rest taken arrived id frame read step call =>
      subst call
      have here := taken ▸ Multiset.mem_cons_self packet rest
      intro k there
      rcases Multiset.mem_add.1 there with old | fresh
      · exact keeps (ih k (taken ▸ Multiset.mem_cons_of_mem old))
      · obtain ⟨o, offer, arrives⟩ := mem_arrivals fresh
        exact keeps (handles prior mem here arrived (ih packet here) offer arrives)
    | idle => exact fun k there => keeps (ih k there)

/-- Every event of a member was caused by a message that was in flight to it. -/
theorem Reaches.exists_cause {d : Deployment} {history : History} {s : Scene}
    (reaches : d.Reaches history s) {m : Member} (mem : m ∈ d.members) {event : Event}
    (told : event ∈ history.emitted m.id) :
    ∃ front rest before, history = front ++ rest ∧ d.Reaches front before ∧
      ∃ k ∈ before.flight, k.far = m.id ∧ ((before.engine m.id).handle (d.surroundings m)
        (some k.near) k.message).result.event? = some event := by
  induction reaches with
  | opening => cases told
  | @advance history s next deed prior advance ih =>
    rcases History.mem_emitted_concat.1 told with before | ⟨own, last⟩
    · obtain ⟨front, rest, scene, rfl, cause⟩ := ih before
      exact ⟨front, rest ++ [deed], scene, List.append_assoc .., cause⟩
    · cases advance with
      | start => cases last
      | @handle other there k rest taken arrived id frame read step call =>
        cases eq_of_id_eq there mem own
        subst call
        exact ⟨history, _, s, rfl, prior, k, taken ▸ Multiset.mem_cons_self .., arrived, last⟩
      | idle idle =>
        rw [idle.event] at last
        cases last

/-- What holds of a scene once an exchange was started: it holds right after the start, and every
later deed keeps it. `Regime` is what is known of the history, and hence of all earlier ones. -/
theorem Reaches.sinceStart {d : Deployment} {peer : PeerId} {id : MessageId}
    {exchange : Exchange} (Regime : History → Prop) (Holds : History → Scene → Prop)
    (earlier : ∀ {history deed}, Regime (history ++ [deed]) → Regime history)
    (begins : ∀ {history s deed next}, d.Reaches history s → d.Advance s deed next →
      Regime (history ++ [deed]) → deed.peer = peer → deed.started? = some (id, exchange) →
      Holds (history ++ [deed]) next)
    (continues : ∀ {history s deed next}, d.Reaches history s → d.Advance s deed next →
      Regime (history ++ [deed]) → History.Started history peer id exchange → Holds history s →
      Holds (history ++ [deed]) next)
    {history : History} {s : Scene} (reaches : d.Reaches history s) (regime : Regime history)
    (started : history.Started peer id exchange) : Holds history s := by
  induction reaches with
  | opening _ =>
    obtain ⟨_, mem, -⟩ := started
    cases mem
  | advance prior advance ih =>
    rcases History.started_append.1 started with before | ⟨deed, mem, own, found⟩
    · exact continues prior advance regime before (ih (earlier regime) before)
    · cases List.mem_singleton.1 mem
      exact begins prior advance regime own found

end Deployment

end TrustMesh
