import TrustMesh.Proofs.Mesh.Scene

/-!
# What every deed keeps

`Deployment.Ledger` ties a scene to the deeds that led to it: the memories of an engine
hold exchanges that were started, and every message in flight belongs to an exchange of
the peer that its route begins with. `Reaches.ledger` states that it holds of every scene.

It does not say how far an exchange has come.
-/

namespace TrustMesh

open Std

/-- An engine that belongs to a member. -/
structure Engine.Serves (e : Engine) (m : Member) : Prop where
  identity : e.identity = m.identity
  settings : e.settings = m.settings

namespace Deployment

/-- What a scene has to do with the deeds that led to it. -/
structure Ledger (d : Deployment) (h : History) (s : Scene) : Prop where
  identity : ∀ m ∈ d.members, (s.engine m.id).identity = m.identity
  settings : ∀ m ∈ d.members, (s.engine m.id).settings = m.settings
  seen : ∀ m ∈ d.members,
    (s.engine m.id).seen.entries.Within h.startedIds m.settings.seenCapacity
  queries : ∀ m ∈ d.members,
    (s.engine m.id).queries.Within (h.queriesOf m.id) m.settings.seenCapacity
  exchanges : ∀ k ∈ s.flight, ∃ peer exchange, h.Started peer k.message.id exchange ∧
    k.message.route.head? = some peer ∧ exchange.Admits k.message.body.kind ∧
      (h.Legible k.message.id → exchange.Carries k.message.body)
  linked : ∀ k ∈ s.flight, d.Linked k.near k.far
  starters : ∀ peer id exchange, h.Started peer id exchange → ∃ m ∈ d.members, m.id = peer
  told : ∀ deed ∈ h, ∀ event, deed.event = some event → event.id ∈ h.startedIds
  offered : ∀ deed ∈ h, ∀ o ∈ deed.offered, o.message.id ∈ h.startedIds

variable {d : Deployment} {h : History} {s next : Scene} {deed : Deed}

theorem Ledger.serves (ledger : d.Ledger h s) {m : Member} (mem : m ∈ d.members) :
    (s.engine m.id).Serves m := ⟨ledger.identity m mem, ledger.settings m mem⟩

/-- A memory of exchanges holds what was started before any further deed. -/
theorem Ledger.within_seen (ledger : d.Ledger h s) {m : Member} (mem : m ∈ d.members) :
    (s.engine m.id).seen.entries.Within (h ++ [deed]).startedIds m.settings.seenCapacity := by
  refine (ledger.seen m mem).mono fun id there => ?_
  rw [History.startedIds_append]
  exact List.mem_append_left _ there

theorem Ledger.within_queries (ledger : d.Ledger h s) {m : Member} (mem : m ∈ d.members) :
    (s.engine m.id).queries.Within ((h ++ [deed]).queriesOf m.id) m.settings.seenCapacity := by
  refine (ledger.queries m mem).mono fun id there => ?_
  rw [History.queriesOf_append]
  exact List.mem_append_left _ there

theorem Ledger.opening (opening : s.Opening d) : d.Ledger [] s := by
  have engine := opening.engine
  constructor
  · intro m mem
    rw [engine m mem]
  · intro m mem
    rw [engine m mem]
  · intro m mem
    rw [engine m mem]
    exact Recency.within_empty ..
  · intro m mem
    rw [engine m mem]
    exact Recency.within_empty ..
  · intro k mem
    rw [opening.flight] at mem
    cases Multiset.notMem_zero k mem
  · intro k mem
    rw [opening.flight] at mem
    cases Multiset.notMem_zero k mem
  · rintro peer id exchange ⟨deed, mem, -⟩
    cases mem
  · intro deed mem
    cases mem
  · intro deed mem
    cases mem

/-- What holds of a scene holds after a deed if it holds of what the deed changed. -/
theorem Ledger.after (ledger : d.Ledger h s) {m : Member} (mem : m ∈ d.members) {id : MessageId}
    {engine : Engine} {rest : Multiset Packet} (own : deed.peer = m.id)
    (keeps : (s.engine m.id).Keeps id engine) (known : id ∈ (h ++ [deed]).startedIds)
    (queries : engine.queries = (s.engine m.id).queries ∨ id ∈ (h ++ [deed]).queriesOf m.id)
    (fewer : rest ≤ s.flight)
    (exchanges : ∀ o ∈ deed.offered, ∃ peer exchange,
      (h ++ [deed]).Started peer o.message.id exchange ∧
        o.message.route.head? = some peer ∧ exchange.Admits o.message.body.kind ∧
          (History.Legible (h ++ [deed]) o.message.id → exchange.Carries o.message.body))
    (linked : ∀ o ∈ deed.offered, d.Linked o.link.near o.link.far)
    (told : ∀ event, deed.event = some event → event.id = id) :
    d.Ledger (h ++ [deed]) (s.after m.id engine rest deed.offered) := by
  have started : ∀ id ∈ h.startedIds, id ∈ (h ++ [deed]).startedIds := by
    intro id there
    rw [History.startedIds_append]
    exact List.mem_append_left _ there
  constructor
  · exact forall_engine_after (motive := fun other e => e.identity = other.identity) mem
      (keeps.identity.trans (ledger.identity m mem)) ledger.identity
  · exact forall_engine_after (motive := fun other e => e.settings = other.settings) mem
      (keeps.settings.trans (ledger.settings m mem)) ledger.settings
  · exact forall_engine_after (motive := fun other e =>
      e.seen.entries.Within (h ++ [deed]).startedIds other.settings.seenCapacity) mem
      ((ledger.within_seen mem).stores keeps.seen known) fun _ there => ledger.within_seen there
  · refine forall_engine_after (motive := fun other e =>
      e.queries.Within ((h ++ [deed]).queriesOf other.id) other.settings.seenCapacity) mem ?_
      fun _ there => ledger.within_queries there
    rcases queries with kept | mine
    · rw [kept]
      exact ledger.within_queries mem
    · exact (ledger.within_queries mem).stores keeps.queries mine
  · intro k there
    rcases Scene.mem_flight_after there with old | ⟨o, offer, -, read⟩
    · obtain ⟨peer, exchange, began, route, admits, carried⟩ :=
        ledger.exchanges k (Multiset.mem_of_le fewer old)
      exact ⟨peer, exchange, began.mono _, route, admits, fun legible => carried legible.earlier⟩
    · obtain ⟨peer, exchange, began, route, admits, carried⟩ := exchanges o offer
      obtain ⟨same, path, kind⟩ := Message.kept_of_decode read
      refine ⟨peer, exchange, same ▸ began, path ▸ route, kind ▸ admits, fun legible => ?_⟩
      have whole := legible deed (by simp) o offer same.symm
      rw [show Message.decode o.frame = .ok k.message from read] at whole
      rw [Except.ok.inj whole] at legible ⊢
      exact carried legible
  · intro k there
    rcases Scene.mem_flight_after there with old | ⟨o, offer, link, -⟩
    · exact ledger.linked k (Multiset.mem_of_le fewer old)
    · have joined := linked o offer
      rwa [link] at joined
  · intro peer id exchange began
    rcases History.started_append.1 began with before | ⟨other, there, rfl, -⟩
    · exact ledger.starters peer id exchange before
    · cases List.mem_singleton.1 there
      exact ⟨m, mem, own.symm⟩
  · intro other there event found
    rcases List.mem_append.1 there with before | last
    · exact started _ (ledger.told other before event found)
    · cases List.mem_singleton.1 last
      rw [told event found]
      exact known
  · intro other there o offer
    rcases List.mem_append.1 there with before | last
    · exact started _ (ledger.offered other before o offer)
    · cases List.mem_singleton.1 last
      obtain ⟨peer, exchange, began, -⟩ := exchanges o offer
      exact began.mem

/-- A deed that comes to nothing keeps the ledger. -/
theorem Ledger.idle (ledger : d.Ledger h s) (idle : deed.Idle) : d.Ledger (h ++ [deed]) s := by
  constructor
  · exact ledger.identity
  · exact ledger.settings
  · rw [History.startedIds_idle h idle]
    exact ledger.seen
  · intro m mem
    rw [History.queriesOf_idle h idle]
    exact ledger.queries m mem
  · intro k there
    obtain ⟨peer, exchange, began, route, admits, carried⟩ := ledger.exchanges k there
    exact ⟨peer, exchange, began.mono _, route, admits, fun legible => carried legible.earlier⟩
  · exact ledger.linked
  · intro peer id exchange began
    exact ledger.starters peer id exchange ((History.started_idle h idle peer).1 began)
  · intro other there event found
    rw [History.startedIds_idle h idle]
    rcases List.mem_append.1 there with before | last
    · exact ledger.told other before event found
    · rw [List.mem_singleton.1 last, idle.event] at found
      cases found
  · intro other there o offer
    rw [History.startedIds_idle h idle]
    rcases List.mem_append.1 there with before | last
    · exact ledger.offered other before o offer
    · rw [List.mem_singleton.1 last, idle.offered] at offer
      cases offer

/-- The graphs of queries change only for a query of the member. -/
theorem Ledger.queries_of_handle (ledger : d.Ledger h s) {m : Member} (mem : m ∈ d.members)
    {k : Packet} (there : k ∈ s.flight) {surroundings : Surroundings} {sender : Option PeerId} :
    ((s.engine m.id).handle surroundings sender k.message).engine.queries =
        (s.engine m.id).queries ∨ k.message.id ∈ h.queriesOf m.id := by
  refine Engine.handle_queries.imp_right ?_
  rintro ⟨⟨graph, body⟩, origin, first, contains⟩
  obtain ⟨peer, exchange, began, route, admits, -⟩ := ledger.exchanges k there
  rw [route] at first
  cases first
  obtain ⟨starter, known, rfl⟩ := ledger.starters _ _ _ began
  rw [ledger.identity m mem, contains_id_iff mem known] at contains
  rw [contains] at began
  rw [body] at admits
  cases exchange with
  | comply framework => exact began.mem_queriesOf
  | trace target => exact admits.elim
  | gossip members content => exact admits.elim

/-- An exchange that was not started is remembered by no member. -/
theorem Ledger.contains_eq_false (ledger : d.Ledger h s) {id : MessageId}
    (unknown : id ∉ h.startedIds) :
    ∀ m ∈ d.members, (s.engine m.id).seen.contains id = false := by
  intro m mem
  rw [Bool.eq_false_iff]
  exact fun contains => unknown ((ledger.seen m mem).known _ (Recency.contains_iff.1 contains))

/-- An exchange that was not started has no message in flight. -/
theorem Ledger.about_eq_zero (ledger : d.Ledger h s) {id : MessageId}
    (unknown : id ∉ h.startedIds) : s.about id = 0 := by
  refine Multiset.filter_eq_nil.2 fun k there same => unknown ?_
  obtain ⟨peer, exchange, began, -⟩ := ledger.exchanges k there
  exact same ▸ began.mem

/-- With room, a call that belongs to another exchange does not change who remembers this one. -/
theorem Ledger.contains_after (ledger : d.Ledger h s) {m : Member} (mem : m ∈ d.members)
    {id other : MessageId} {engine : Engine} {rest : Multiset Packet} {offered : List Dispatch}
    (keeps : (s.engine m.id).Keeps other engine) (differ : id ≠ other)
    (known : other ∈ (h ++ [deed]).startedIds)
    (room : (h ++ [deed]).startedIds.length ≤ m.settings.seenCapacity) (p : PeerId) :
    ((s.after m.id engine rest offered).engine p).seen.contains id =
      (s.engine p).seen.contains id := by
  by_cases own : p = m.id
  · rw [own, Scene.engine_after_self]
    exact SeenCache.contains_eq_of_stores keeps.seen (ledger.within_seen mem) known room differ
  · rw [Scene.engine_after_of_ne own]

/-- An exchange that was not started was not told of. -/
theorem Ledger.untold (ledger : d.Ledger h s) {id : MessageId} {sort : Event → Bool}
    (unknown : id ∉ h.startedIds) (own : ∀ event, sort event = true → event.id = id) :
    ∀ peer, ∀ event ∈ h.emitted peer, sort event = false := by
  intro peer event told
  obtain ⟨deed, there, -, found⟩ := History.mem_emitted.1 told
  rw [Bool.eq_false_iff]
  exact fun hit => unknown (own event hit ▸ ledger.told deed there event found)

/-- No message of an exchange that was not started was taken in. -/
theorem Ledger.accepted_eq_nil (ledger : d.Ledger h s) {id : MessageId} {sort : Event → Bool}
    (unknown : id ∉ h.startedIds) (own : ∀ event, sort event = true → event.id = id)
    (peer : PeerId) : h.accepted peer sort = [] := by
  refine List.filterMap_eq_nil_iff.2 fun deed there => if_neg ?_
  rintro ⟨here, hit⟩
  obtain ⟨event, found, sorted⟩ := (Option.any_eq_true ..).1 hit
  have told : event ∈ h.emitted peer := History.mem_emitted.2 ⟨deed, there, here, found⟩
  rw [ledger.untold unknown own peer event told] at sorted
  cases sorted

/-- No answer was given in an exchange that was not started. -/
theorem Ledger.replies_eq_nil (ledger : d.Ledger h s) {id : MessageId} (unknown : id ∉ h.startedIds)
    (peer : PeerId) : h.replies peer id = [] := by
  refine List.flatMap_eq_nil_iff.2 fun deed there => ?_
  have other : ((deed.offered.map (·.message)).filter fun m => m.id = id ∧ m.body.isAnswer) = [] := by
    refine List.filter_eq_nil_iff.2 fun message mem => ?_
    obtain ⟨o, offer, rfl⟩ := List.mem_map.1 mem
    have differ : o.message.id ≠ id := fun same =>
      unknown (same ▸ ledger.offered deed there o offer)
    simp [differ]
  rw [other, ite_self]

/-- Every deed keeps the ledger. -/
theorem Ledger.advance (ledger : d.Ledger h s) (advance : d.Advance s deed next) :
    d.Ledger (h ++ [deed]) next := by
  cases advance with
  | @start m mem ticket id exchange step call =>
    subst call
    have began : ∀ {offered : List Dispatch},
        (h ++ [(⟨m.id, .start ticket exchange, id, offered, none⟩ : Deed)]).Started
          m.id id exchange :=
      History.started_append.2 (.inr ⟨_, List.mem_singleton.2 rfl, rfl, rfl⟩)
    refine ledger.after mem rfl Engine.start_keeps began.mem ?_ le_rfl ?_ ?_ (by simp)
    · by_cases query : ∃ framework, exchange = .comply framework
      · obtain ⟨framework, rfl⟩ := query
        exact .inr began.mem_queriesOf
      · push Not at query
        exact .inl (Engine.start_queries query)
    · intro o there
      obtain ⟨own, route, carried, -⟩ := Engine.start_offers there
      refine ⟨m.id, exchange, own ▸ began, ?_, carried.admits, fun _ => carried⟩
      rw [route, Engine.primary, ledger.identity m mem]
      rfl
    · intro o there
      obtain ⟨-, -, -, far, resolved⟩ := Engine.start_offers there
      obtain ⟨same, linked⟩ := resolve_eq_some resolved
      rwa [same]
  | @handle m mem k rest taken arrived id frame read step call =>
    subst call
    have there : k ∈ s.flight := taken ▸ Multiset.mem_cons_self ..
    obtain ⟨peer, exchange, began, route, admits, carried⟩ := ledger.exchanges k there
    refine ledger.after mem rfl Engine.handle_keeps (began.mono _).mem ?_
      (taken ▸ Multiset.le_cons_self ..) ?_ ?_ fun event found => Engine.handle_event found
    · refine (ledger.queries_of_handle mem there).imp_right fun asked => ?_
      rw [History.queriesOf_append]
      exact List.mem_append_left _ asked
    · intro o offer
      have onward := Engine.handle_onward offer
      refine ⟨peer, exchange, onward.id ▸ began.mono _, ?_, onward.admits admits, fun legible =>
        onward.carried exchange (carried (onward.id ▸ legible.earlier))⟩
      rcases onward.route with same | longer
      · rw [same, route]
      · rw [longer, List.head?_append, route]
        rfl
    · intro o offer
      obtain ⟨far, resolved⟩ := (Engine.handle_onward offer).link
      obtain ⟨same, linked⟩ := resolve_eq_some resolved
      rwa [same]
  | idle idle => exact ledger.idle idle

/-- The ledger holds of every scene. -/
theorem Reaches.ledger (reaches : d.Reaches h s) : d.Ledger h s := by
  induction reaches with
  | opening opening => exact .opening opening
  | advance prior advance ih => exact ih.advance advance

end Deployment

end TrustMesh
