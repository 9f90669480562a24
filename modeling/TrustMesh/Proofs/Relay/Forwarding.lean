import Mathlib.Data.List.Dedup
import Mathlib.Data.List.Induction
import TrustMesh.Proofs.Relay.Journal

/-!
# Messages are passed on once

An engine remembers the searches and gossips that it deals with, and queries if they are
deduplicated. What it remembers it does not pass on again. As long as it has room for all
exchanges that it hears of it forgets none, so it passes on a message of each exchange at
most once, and not at all where it started the exchange itself
(`Engine.forwards_at_most_once`).

A gossip that comes again still counts: its graph is compared with that of the copy
before, which the memory holds by its digest.
-/

namespace TrustMesh

/-- Whether an exchange is remembered when a message of some kind is dealt with. -/
def Settings.remembers (settings : Settings) : MessageKind → Bool
  | .traceRequest => true
  | .gossip => true
  | .complianceRequest => settings.complianceDedup
  | .traceResponse => false
  | .complianceResponse => false

/-- The kind of message that an exchange opens with. -/
def Exchange.opening : Exchange → MessageKind
  | .trace _ => .traceRequest
  | .gossip .. => .gossip
  | .comply _ => .complianceRequest

/-- The graph of a gossip that belongs to an exchange. -/
def Message.gossip? (m : Message) (id : MessageId) : Option Graph :=
  match m.body with
  | .gossip _ _ graph => if m.id = id then some graph else none
  | _ => none

/-- The graph of the gossip that a call delivers for an exchange. -/
def Call.gossip? (id : MessageId) (c : Call) : Option Graph := c.message?.bind (·.gossip? id)

theorem Call.exists_of_gossip? {c : Call} {id : MessageId} {graph : Graph}
    (gossip : c.gossip? id = some graph) : ∃ m members content,
      c.message? = some m ∧ m.id = id ∧ m.body = .gossip members content graph := by
  obtain ⟨m, delivered, shown⟩ := Option.bind_eq_some_iff.1 gossip
  unfold Message.gossip? at shown
  split at shown
  · rename_i members content graph body
    obtain ⟨own, same⟩ := Option.ite_none_right_eq_some.1 shown
    cases same
    exact ⟨m, members, content, delivered, own, body⟩
  · cases shown

namespace Engine

/-- Whether a call passes on a message of an exchange: it delivers one of a kind that is remembered,
and some message is offered. -/
def Entry.forwards (id : MessageId) (x : Entry) : Bool :=
  match x.call.message? with
  | some m =>
    decide (m.id = id) && x.before.settings.remembers m.body.kind && !x.offered.isEmpty
  | none => false

variable {e : Engine} {s : Surroundings} {sender : Option PeerId} {m : Message} {id : MessageId}
  {c : Call} {calls : List Call} {x : Entry} {ids : List MessageId} {capacity : Nat}

/-! ## One call -/

/-- A message of a kind that is remembered leads to others only if its exchange is new, and the
exchange is remembered from then on. -/
theorem handle_of_remembers (remembered : e.settings.remembers m.body.kind = true)
    (offers : (e.handle s sender m).offered ≠ []) :
    e.seen.contains m.id = false ∧
      ∃ value, (e.handle s sender m).engine.seen.entries = e.seen.entries.put m.id value := by
  cases body : m.body with
  | traceRequest target =>
    have marked := e.seen.exists_mark_eq_put m.id
    simp only [handle, body, onTraceRequest] at offers ⊢
    split at offers
    · exact absurd rfl offers
    · rename_i passable
      rw [SeenCache.mark_fst] at offers ⊢
      rw [if_neg passable]
      split at offers
      · exact absurd rfl offers
      · rename_i new
        refine ⟨by simpa using new, ?_⟩
        rw [if_neg new]
        repeat' split
        all_goals exact marked
  | gossip members content graph =>
    simp only [handle, body, onGossip] at offers ⊢
    split at offers
    · exact absurd rfl offers
    · exact absurd rfl offers
    · rename_i first
      exact ⟨SeenCache.observe_fst_eq_first.1 first, e.seen.exists_observe_eq_put ..⟩
  | complianceRequest framework =>
    have dedup : e.settings.complianceDedup = true := by
      simpa [body, Body.kind, Settings.remembers] using remembered
    have marked := e.seen.exists_mark_eq_put m.id
    simp only [handle, body, onComplianceRequest, admitQuery, dedup, if_true] at offers ⊢
    split at offers
    · exact absurd rfl offers
    · rename_i passable
      rw [SeenCache.mark_fst] at offers ⊢
      rw [if_neg passable]
      split at offers
      · exact absurd rfl offers
      · rename_i new
        refine ⟨by simpa using new, ?_⟩
        rw [if_neg new]
        split <;> exact marked
  | traceResponse target graph => simp [body, Body.kind, Settings.remembers] at remembered
  | complianceResponse graph => simp [body, Body.kind, Settings.remembers] at remembered

/-- An exchange that is started with a message of a kind that is remembered is remembered. -/
theorem start_of_remembers {exchange : Exchange}
    (remembered : e.settings.remembers exchange.opening = true) :
    ∃ value, (e.start s id exchange).engine.seen.entries = e.seen.entries.put id value := by
  cases exchange with
  | trace target => exact e.seen.exists_mark_eq_put id
  | gossip members content => exact e.seen.exists_observe_eq_put id _
  | comply framework =>
    have dedup : e.settings.complianceDedup = true := remembered
    simp only [start, startCompliance, admitQuery, dedup, if_true]
    exact e.seen.exists_mark_eq_put id

/-- What a call passes on is new, and remembered from then on. -/
theorem Entry.seen_of_forwards (forwards : x.forwards id = true) :
    x.call.id? = some id ∧ x.before.seen.contains id = false ∧
      ∃ value, x.after.seen.entries = x.before.seen.entries.put id value := by
  unfold Entry.forwards at forwards
  split at forwards
  · rename_i m delivered
    simp only [Bool.and_eq_true, decide_eq_true_eq, Bool.not_eq_true', List.isEmpty_eq_false_iff]
      at forwards
    obtain ⟨⟨rfl, remembered⟩, offers⟩ := forwards
    obtain ⟨s, sender, same⟩ := perform_of_message? (e := x.before) delivered
    have handled : x.step = (x.before.handle s sender m).map .outcome := same
    rw [Entry.offered, handled] at offers
    rw [Entry.after, handled]
    exact ⟨Call.id?_of_message? delivered, handle_of_remembers remembered offers⟩
  · cases forwards

/-! ## Any number of calls -/

/-- With room, an exchange that is remembered stays remembered. -/
theorem perform_contains (within : e.seen.entries.Within ids capacity)
    (known : ∀ id, c.id? = some id → id ∈ ids) (room : ids.length ≤ capacity)
    (remembered : e.seen.contains id = true) :
    (e.perform c).engine.seen.contains id = true := by
  cases belongs : c.id? with
  | some other =>
    exact SeenCache.contains_of_room (perform_keeps belongs).seen within (known other belongs) room
      remembered
  | none => rwa [engine_of_silent belongs]

/-- With room, an exchange that is remembered stays remembered through any calls. -/
theorem run_contains (within : e.seen.entries.Within ids capacity)
    (known : ∀ c ∈ calls, ∀ own, c.id? = some own → own ∈ ids) (room : ids.length ≤ capacity)
    (remembered : e.seen.contains id = true) : (e.run calls).seen.contains id = true :=
  (run_invariant (fun f => f.seen.entries.Within ids capacity ∧ f.seen.contains id = true)
    ⟨within, remembered⟩ fun _ c mem both =>
      ⟨perform_within both.1 (known c mem), perform_contains both.1 (known c mem) room both.2⟩).2

/-- With room, an exchange that is remembered is not passed on. -/
theorem forwards_of_contains (within : e.seen.entries.Within ids capacity)
    (known : ∀ c ∈ calls, ∀ id, c.id? = some id → id ∈ ids) (room : ids.length ≤ capacity)
    (remembered : e.seen.contains id = true) : ∀ x ∈ e.journal calls, x.forwards id = false := by
  induction calls generalizing e with
  | nil => simp [journal]
  | cons c rest ih =>
    have own := known c (List.mem_cons_self ..)
    intro x mem
    rcases List.mem_cons.1 mem with rfl | later
    · refine Bool.eq_false_iff.2 fun forwards => ?_
      have new : e.seen.contains id = false := (Entry.seen_of_forwards forwards).2.1
      rw [remembered] at new
      cases new
    · exact ih (perform_within within own) (fun c mem => known c (List.mem_cons_of_mem _ mem))
        (perform_contains within own room remembered) x later

/-- With room, messages of an exchange are passed on by one call at most. -/
theorem countP_forwards_le (within : e.seen.entries.Within ids capacity)
    (known : ∀ c ∈ calls, ∀ id, c.id? = some id → id ∈ ids) (room : ids.length ≤ capacity) :
    (e.journal calls).countP (·.forwards id) ≤ 1 := by
  induction calls generalizing e with
  | nil => exact Nat.zero_le _
  | cons c rest ih =>
    have own := known c (List.mem_cons_self ..)
    have others := fun c mem => known c (List.mem_cons_of_mem _ mem)
    rw [journal, List.countP_cons]
    split
    · rename_i forwards
      obtain ⟨belongs, -, value, stored⟩ := Entry.seen_of_forwards forwards
      have later := forwards_of_contains (perform_within within own) others room
        (SeenCache.contains_of_put stored within (own id belongs) room)
      have none : ((e.perform c).engine.journal rest).countP (·.forwards id) = 0 :=
        List.countP_eq_zero.2 fun x mem => by simp [later x mem]
      exact Nat.le_of_eq (congrArg (· + 1) none)
    · exact ih (perform_within within own) others

/-! ## Gossips that come again -/

/-- What a copy of a gossip brings about depends on what is remembered of the gossip: the first copy
is shown, a later one only if its graph is not the one remembered. -/
theorem handle_gossip_result (e : Engine) (s : Surroundings) (sender : Option PeerId) {members : List PeerId} {content : Json} {graph : Graph}
    (body : m.body = .gossip members content graph) :
    match e.seen.entries.peek? m.id with
    | none => ∃ sent shown source, (e.handle s sender m).result =
        .handled sent (some (.gossipReceived m.id content members shown source))
    | some known => (e.handle s sender m).result =
        if known = some graph.digest then .dropped .unchanged
        else .handled [] (some (.graphUpdated m.id (e.localize graph))) := by
  simp only [handle, body, onGossip, SeenCache.observe]
  cases e.seen.entries.peek? m.id with
  | none => exact ⟨_, _, _, rfl⟩
  | some known =>
    by_cases same : known = some graph.digest
    · simp only [if_pos same]
      rfl
    · simp only [if_neg same]
      rfl

/-- The digest of a gossip is remembered. -/
theorem handle_gossip_entries {members : List PeerId} {content : Json} {graph : Graph}
    (body : m.body = .gossip members content graph) :
    (e.handle s sender m).engine.seen.entries =
      e.seen.entries.put m.id (some graph.digest) := by
  have stored := e.seen.entries_observe m.id graph.digest
  simp only [handle, body, onGossip]
  split <;> exact stored

/-- What is remembered of an exchange after some calls that concern it only by gossips is the digest
of the last graph. -/
theorem peek?_run_of_gossips (id : MessageId)
    (within : e.seen.entries.Within ids capacity)
    (known : ∀ c ∈ calls, ∀ id, c.id? = some id → id ∈ ids) (room : ids.length ≤ capacity)
    (new : e.seen.entries.peek? id = none)
    (only : ∀ c ∈ calls, c.id? = some id → (c.gossip? id).isSome) :
    (e.run calls).seen.entries.peek? id =
      (calls.filterMap (Call.gossip? id)).getLast?.map fun graph => some graph.digest := by
  induction calls using List.reverseRecOn with
  | nil => exact new
  | append_singleton front c ih =>
    have earlier : ∀ c ∈ front, ∀ id, c.id? = some id → id ∈ ids :=
      fun c mem => known c (List.mem_append_left _ mem)
    have before := run_within within earlier
    rw [run_concat, List.filterMap_append]
    cases gossip : c.gossip? id with
    | some graph =>
      obtain ⟨m, members, content, delivered, rfl, body⟩ := Call.exists_of_gossip? gossip
      obtain ⟨s, sender, same⟩ := perform_of_message? (e := e.run front) delivered
      have there : m.id ∈ ids := known c (by simp) m.id (Call.id?_of_message? delivered)
      have stored : ((e.run front).perform c).engine.seen.entries =
          (e.run front).seen.entries.put m.id (some graph.digest) := by
        rw [same]
        exact handle_gossip_entries body
      rw [stored, Recency.peek?_put_of_room before there room, if_pos rfl]
      simp [gossip]
    | none =>
      have apart : ∀ other, c.id? = some other → id ≠ other := by
        rintro _ belongs rfl
        have shown := only c (by simp) belongs
        rw [gossip] at shown
        cases shown
      have kept : ((e.run front).perform c).engine.seen.entries.peek? id =
          (e.run front).seen.entries.peek? id := by
        cases belongs : c.id? with
        | some other =>
          exact (perform_keeps belongs).seen.peek?_of_ne before
            (known c (by simp) other belongs) room (apart other belongs)
        | none => rw [engine_of_silent belongs]
      rw [kept, ih earlier fun c mem => only c (List.mem_append_left _ mem)]
      simp [gossip]

/-- An engine with room for all exchanges that it hears of passes on a message of an exchange at
most once, and never one of an exchange that it started itself. Where an exchange only ever comes in
gossips, the first is shown as received, and each later one as a changed graph exactly if its graph
differs from that of the gossip before; otherwise it is dropped. -/
theorem forwards_at_most_once {identity : Identity} {settings : Settings}
    (created : create identity settings = .ok e)
    (room : (calls.filterMap Call.id?).dedup.length ≤ settings.seenCapacity) (id : MessageId) :
    (e.journal calls).countP (·.forwards id) ≤ 1 ∧
      (∀ front c rest exchange, calls = front ++ c :: rest → c.started? = some (id, exchange) →
        settings.remembers exchange.opening = true →
          ∀ x ∈ (e.run (front ++ [c])).journal rest, x.forwards id = false) ∧
      ((∀ c ∈ calls, c.id? = some id → (c.gossip? id).isSome) →
        ∀ front c rest m members content graph, calls = front ++ c :: rest →
          c.message? = some m → m.id = id → m.body = .gossip members content graph →
            match (front.filterMap (Call.gossip? id)).getLast? with
            | none => ∃ sent shown source, (Entry.mk (e.run front) c).outcome? =
                some (.handled sent (some (.gossipReceived id content members shown source)))
            | some last => (Entry.mk (e.run front) c).outcome? =
                some (if graph.digest = last.digest then .dropped .unchanged
                  else .handled [] (some (.graphUpdated id ((e.run front).localize graph))))) := by
  have start := eq_of_create created
  have within : e.seen.entries.Within (calls.filterMap Call.id?).dedup settings.seenCapacity := by
    rw [start]
    exact Recency.within_empty ..
  have known : ∀ c ∈ calls, ∀ id, c.id? = some id → id ∈ (calls.filterMap Call.id?).dedup :=
    fun c mem id belongs => List.mem_dedup.2 (List.mem_filterMap.2 ⟨c, mem, belongs⟩)
  refine ⟨countP_forwards_le within known room, ?_, ?_⟩
  · rintro front c rest exchange rfl starts remembered
    obtain ⟨s, rfl⟩ := Call.eq_start_of_started? starts
    have earlier := run_within within fun c mem => known c (List.mem_append_left _ mem)
    have own := known (.start s id exchange) (by simp)
    have setup : (e.run front).settings = settings := by rw [(run_setup e front).2, start]
    have started : ∃ value, ((e.run front).start s id exchange).engine.seen.entries =
        (e.run front).seen.entries.put id value := start_of_remembers (setup ▸ remembered)
    obtain ⟨value, stored⟩ := started
    rw [run_concat]
    exact forwards_of_contains (perform_within earlier own)
      (fun c mem => known c (by simp [mem])) room
      (SeenCache.contains_of_put stored earlier (own id rfl) room)
  · rintro only front c rest m members content graph rfl delivered rfl body
    obtain ⟨s, sender, same⟩ := perform_of_message? (e := e.run front) delivered
    have outcome : (Entry.mk (e.run front) c).outcome? =
        some ((e.run front).handle s sender m).result := by
      simp only [Entry.outcome?, Entry.step, same, Step.map]
    have remembered := peek?_run_of_gossips m.id within
      (fun c mem => known c (List.mem_append_left _ mem)) room (by rw [start]; rfl)
      fun c mem => only c (List.mem_append_left _ mem)
    have result := handle_gossip_result (e.run front) s sender body
    rw [remembered] at result
    rw [outcome]
    cases last : (front.filterMap (Call.gossip? m.id)).getLast? with
    | none =>
      simp only [last, Option.map_none] at result
      obtain ⟨sent, shown, source, same⟩ := result
      exact ⟨sent, shown, source, congrArg some same⟩
    | some old =>
      simp only [last, Option.map_some, Option.some.injEq] at result
      simp only [result, eq_comm]

/-- A peer that started a search and is then handed one gossip twice passes on one copy at most and
drops the second one. -/
theorem forwards_at_most_once_repeated :
    let s : Surroundings := .among ⟨"A"⟩ [⟨"B"⟩, ⟨"C"⟩]
    let gossip : Message := ⟨.zero, [⟨"B"⟩], .gossip [⟨"A"⟩, ⟨"B"⟩, ⟨"C"⟩] .null .empty⟩
    let calls := [.start s (.ofNat 1) (.trace ⟨"D"⟩), .message s none gossip,
      .message s none gossip]
    ((fresh ⟨"A"⟩).journal calls).countP (·.forwards .zero) ≤ 1 ∧
      (Entry.mk ((fresh ⟨"A"⟩).run (calls.take 2)) (.message s none gossip)).outcome? =
        some (.dropped .unchanged) := by
  intro s gossip calls
  have created : create (.ofPeers ⟨"A"⟩ []) .standard = .ok (fresh ⟨"A"⟩) := by decide
  have room : (calls.filterMap Call.id?).dedup.length ≤ Settings.standard.seenCapacity := by decide
  have once := forwards_at_most_once created room .zero
  refine ⟨once.1, ?_⟩
  have only : ∀ c ∈ calls, c.id? = some .zero → (c.gossip? .zero).isSome := by decide
  have last := once.2.2 only (calls.take 2) (.message s none gossip) [] gossip _ _ _ rfl rfl rfl rfl
  have known : ((calls.take 2).filterMap (Call.gossip? .zero)).getLast? = some .empty := by rfl
  rw [known] at last
  exact last.trans (congrArg some (if_pos rfl))

end Engine

end TrustMesh
