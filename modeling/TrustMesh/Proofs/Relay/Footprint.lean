import TrustMesh.Proofs.Relay.Sightings

/-!
# What a call reads of the memory of exchanges

A call that spreads a gossip or marks an exchange reads and stores one entry of the memory,
that of the exchange at hand; every other call does not look at the memory
(`Call.Uses`). So two engines that differ only in what they remember of one exchange show
the same in every call that does not use that entry, and still differ in nothing else
afterwards (`Engine.Beside.perform`).
-/

namespace TrustMesh

/-- All that shows of a step outside the engine. -/
def Step.shown {α : Type} (step : Step α) : α × List Dispatch × List Question :=
  (step.result, step.offered, step.asked)

/-- Two steps that show the same and leave the same graphs of queries. -/
structure Step.Mirrors {α : Type} (step other : Step α) : Prop where
  shown : other.shown = step.shown
  queries : other.engine.queries = step.engine.queries

theorem Step.Mirrors.map {α β : Type} {step other : Step α} (mirrors : step.Mirrors other)
    (f : α → β) : (step.map f).Mirrors (other.map f) where
  shown := by
    obtain ⟨result, parts⟩ := Prod.ext_iff.1 mirrors.shown
    exact Prod.ext (congrArg f result) parts
  queries := mirrors.queries

/-- A call uses what is remembered of an exchange: it spreads a gossip or marks the exchange. -/
def Call.Uses (identity : Identity) (settings : Settings) (c : Call) (id : MessageId) : Prop :=
  c.Spreads id ∨ c.Marks identity settings id

theorem Call.Uses.belongs {identity : Identity} {settings : Settings} {c : Call} {id : MessageId}
    (uses : c.Uses identity settings id) : c.id? = some id :=
  uses.elim Spreads.belongs Marks.belongs

namespace Engine

variable {e : Engine} {s : Surroundings} {sender : Option PeerId} {m : Message} {id : MessageId}
  {c : Call} {seen : SeenCache}

/-! ## One lemma per handler -/

theorem onRoute_with_seen (e : Engine) (seen : SeenCache) (m : Message) :
    { e with seen }.onRoute m = e.onRoute m := rfl

theorem onTraceRequest_mirrors {target : PeerId}
    (same : e.Unpassed m → seen.contains m.id = e.seen.contains m.id) :
    (e.onTraceRequest s m target).Mirrors ({ e with seen }.onTraceRequest s m target) := by
  simp only [onTraceRequest, onRoute_with_seen, SeenCache.mark_fst]
  split
  · exact ⟨rfl, rfl⟩
  · rename_i passable
    rw [same (unpassed_of_not passable)]
    repeat' split
    all_goals exact ⟨rfl, rfl⟩

theorem onTraceResponse_mirrors {target : PeerId} {graph : Graph} :
    (e.onTraceResponse s m target graph).Mirrors
      ({ e with seen }.onTraceResponse s m target graph) := by
  simp only [onTraceResponse]
  split <;> exact ⟨rfl, rfl⟩

theorem onGossip_mirrors {members : List PeerId} {content : Json} {graph : Graph}
    (same : seen.entries.peek? m.id = e.seen.entries.peek? m.id) :
    (e.onGossip s sender m members content graph).Mirrors
      ({ e with seen }.onGossip s sender m members content graph) := by
  have sighting : (seen.observe m.id graph.digest).1 = (e.seen.observe m.id graph.digest).1 := by
    simp only [SeenCache.observe, same]
    repeat' split
    all_goals rfl
  simp only [onGossip, sighting]
  split <;> exact ⟨rfl, rfl⟩

theorem onComplianceRequest_mirrors {framework : Framework}
    (same : e.settings.complianceDedup = true → e.Unpassed m →
      seen.contains m.id = e.seen.contains m.id) :
    (e.onComplianceRequest s sender m framework).Mirrors
      ({ e with seen }.onComplianceRequest s sender m framework) := by
  simp only [onComplianceRequest, onRoute_with_seen]
  by_cases passed : (m.hasLoop || e.onRoute m) = true
  · simp only [passed, if_true]
    exact ⟨rfl, rfl⟩
  · simp only [passed]
    have unpassed := unpassed_of_not passed
    cases dedup : e.settings.complianceDedup with
    | true =>
      simp only [admitQuery, dedup, if_true, SeenCache.mark_fst, same dedup unpassed]
      repeat' split
      all_goals exact ⟨rfl, rfl⟩
    | false =>
      simp only [admitQuery, dedup, Bool.false_eq_true, if_false]
      repeat' split
      all_goals exact ⟨rfl, rfl⟩

theorem onComplianceResponse_mirrors {graph : Graph} :
    (e.onComplianceResponse s m graph).Mirrors ({ e with seen }.onComplianceResponse s m graph) := by
  simp only [onComplianceResponse]
  split <;> exact ⟨rfl, rfl⟩

/-- The handling of a message reads the memory if the message is a gossip, and if it is a request of a
kind that is remembered which has not passed this node. -/
theorem handle_mirrors
    (spread : m.body.kind = .gossip → seen.entries.peek? m.id = e.seen.entries.peek? m.id)
    (marked : m.body.kind.isRequest = true → e.settings.remembers m.body.kind = true →
      e.Unpassed m → seen.contains m.id = e.seen.contains m.id) :
    (e.handle s sender m).Mirrors ({ e with seen }.handle s sender m) := by
  cases body : m.body with
  | traceRequest target =>
    simp only [handle, body]
    exact onTraceRequest_mirrors (marked (by rw [body]; rfl) (by rw [body]; rfl))
  | traceResponse target graph =>
    simp only [handle, body]
    exact onTraceResponse_mirrors
  | gossip members content graph =>
    simp only [handle, body]
    exact onGossip_mirrors (spread (by rw [body]; rfl))
  | complianceRequest framework =>
    simp only [handle, body]
    exact onComplianceRequest_mirrors fun dedup =>
      marked (by rw [body]; rfl) (by rw [body]; exact dedup)
  | complianceResponse graph =>
    simp only [handle, body]
    exact onComplianceResponse_mirrors

/-- Starting an exchange does not read the memory. -/
theorem start_mirrors {exchange : Exchange} :
    (e.start s id exchange).Mirrors ({ e with seen }.start s id exchange) := by
  cases exchange with
  | trace target => exact ⟨rfl, rfl⟩
  | gossip members content => exact ⟨rfl, rfl⟩
  | comply framework =>
    simp only [start, startCompliance, admitQuery]
    split <;> exact ⟨rfl, rfl⟩

/-- A call reads only what is remembered of the exchange that it uses. -/
theorem perform_mirrors
    (same : ∀ own, c.Uses e.identity e.settings own →
      seen.entries.peek? own = e.seen.entries.peek? own) :
    (e.perform c).Mirrors ({ e with seen }.perform c) := by
  rcases c.sorts with ⟨m, delivered⟩ | ⟨id, exchange, starts⟩ | silent
  · rw [perform_of_delivered delivered, perform_of_delivered delivered]
    refine (handle_mirrors (fun spread => ?_) fun asks remembered unpassed => ?_).map _
    · cases body : m.body with
      | gossip members content graph => exact same m.id (.inl (.deliver delivered rfl body))
      | _ =>
        rw [body] at spread
        cases spread
    · have marks : c.Marks e.identity e.settings m.id :=
        .deliver delivered rfl asks remembered unpassed.straight unpassed.foreign
      rw [SeenCache.contains, SeenCache.contains, Recency.contains, Recency.contains,
        same m.id (.inr marks)]
  · obtain ⟨s, rfl⟩ := Call.eq_start_of_started? starts
    exact start_mirrors.map _
  · rw [perform_of_silent silent, perform_of_silent silent]
    exact ⟨rfl, rfl⟩

/-- What a call stores under the exchange that it uses depends on what was remembered of that exchange
only. -/
theorem entries_of_uses {own : MessageId} (uses : c.Uses e.identity e.settings own)
    (same : seen.entries.peek? own = e.seen.entries.peek? own) : ∃ value,
      (e.perform c).engine.seen.entries = e.seen.entries.put own value ∧
        ({ e with seen }.perform c).engine.seen.entries = seen.entries.put own value := by
  rcases uses with spreads | marks
  · cases spreads with
    | start starts =>
      obtain ⟨s, rfl⟩ := Call.eq_start_of_started? starts
      exact ⟨_, e.seen.entries_observe own _, seen.entries_observe own _⟩
    | deliver delivered own body =>
      subst own
      rw [perform_of_delivered delivered, perform_of_delivered delivered]
      exact ⟨_, handle_gossip_entries body, handle_gossip_entries body⟩
  · refine ⟨_, seen_of_marks marks, ?_⟩
    rw [SeenCache.digest?, ← same]
    exact seen_of_marks (e := { e with seen }) marks

/-- A call that uses no exchange leaves the memory alone. -/
theorem seen_of_unused (unused : ∀ own, ¬ c.Uses e.identity e.settings own) :
    (e.perform c).engine.seen = e.seen :=
  seen_of_quiet (fun own spreads => unused own (.inl spreads))
    fun own marks => unused own (.inr marks)

/-! ## Engines that differ in one exchange only -/

/-- All that shows of a call outside the engine. -/
def Entry.shown (x : Entry) : Reply × List Dispatch × List Question := x.step.shown

/-- Two engines that differ in nothing but what they remember of one exchange. -/
structure Beside (e : Engine) (id : MessageId) (other : Engine) : Prop where
  identity : other.identity = e.identity
  settings : other.settings = e.settings
  queries : other.queries = e.queries
  memory : ∀ probe, probe ≠ id → other.seen.entries.peek? probe = e.seen.entries.peek? probe

variable {other : Engine} {calls : List Call} {ids : List MessageId} {capacity : Nat}

theorem Beside.eq_with_seen (beside : e.Beside id other) :
    other = { e with seen := other.seen } := by
  obtain ⟨identity, settings, queries, -⟩ := beside
  rw [← identity, ← settings, ← queries]

/-- With room, a call that does not use an exchange keeps what is remembered of it. -/
theorem peek?_of_unused (within : e.seen.entries.Within ids capacity)
    (known : ∀ own, c.id? = some own → own ∈ ids) (room : ids.length ≤ capacity)
    (unused : ¬ c.Uses e.identity e.settings id) :
    (e.perform c).engine.seen.entries.peek? id = e.seen.entries.peek? id := by
  by_cases uses : ∃ own, c.Uses e.identity e.settings own
  · obtain ⟨own, uses⟩ := uses
    have differ : id ≠ own := by
      rintro rfl
      exact unused uses
    obtain ⟨value, stored, -⟩ :=
      entries_of_uses uses (rfl : e.seen.entries.peek? own = e.seen.entries.peek? own)
    rw [stored, Recency.peek?_put_of_room within (known own uses.belongs) room, if_neg differ]
  · rw [seen_of_unused fun own there => uses ⟨own, there⟩]

/-- With room, a call that does not use the exchange in which two engines differ shows the same on both,
and they differ in nothing else afterwards. -/
theorem Beside.perform (beside : e.Beside id other) (within : e.seen.entries.Within ids capacity)
    (within' : other.seen.entries.Within ids capacity)
    (known : ∀ own, c.id? = some own → own ∈ ids) (room : ids.length ≤ capacity)
    (unused : ¬ c.Uses e.identity e.settings id) :
    (other.perform c).shown = (e.perform c).shown ∧
      (e.perform c).engine.Beside id (other.perform c).engine := by
  have core := beside.eq_with_seen
  have memory := beside.memory
  generalize other.seen = seen at core memory within'
  subst core
  have apart : ∀ own, c.Uses e.identity e.settings own → own ≠ id := by
    rintro own uses rfl
    exact unused uses
  have mirrors := perform_mirrors fun own uses => memory own (apart own uses)
  have setup := perform_setup (e := e) (c := c)
  have setup' := perform_setup (e := { e with seen }) (c := c)
  refine ⟨mirrors.shown, setup'.1.trans setup.1.symm, setup'.2.trans setup.2.symm, mirrors.queries,
    fun probe differ => ?_⟩
  by_cases uses : ∃ own, c.Uses e.identity e.settings own
  · obtain ⟨own, uses⟩ := uses
    obtain ⟨value, stored, stored'⟩ := entries_of_uses uses (memory own (apart own uses))
    have there := known own uses.belongs
    rw [stored, stored', Recency.peek?_put_of_room within there room,
      Recency.peek?_put_of_room within' there room, memory probe differ]
  · have alone : ∀ own, ¬ c.Uses e.identity e.settings own := fun own there => uses ⟨own, there⟩
    rw [seen_of_unused alone, seen_of_unused (e := { e with seen }) alone]
    exact memory probe differ

/-- With room, calls that do not use the exchange in which two engines differ show the same on both, and
the engines differ in nothing else afterwards. -/
theorem Beside.run (beside : e.Beside id other) (within : e.seen.entries.Within ids capacity)
    (within' : other.seen.entries.Within ids capacity)
    (known : ∀ c ∈ calls, ∀ own, c.id? = some own → own ∈ ids) (room : ids.length ≤ capacity)
    (unused : ∀ c ∈ calls, ¬ c.Uses e.identity e.settings id) :
    (other.journal calls).map Entry.shown = (e.journal calls).map Entry.shown ∧
      (e.run calls).Beside id (other.run calls) := by
  induction calls generalizing e other with
  | nil => exact ⟨rfl, beside⟩
  | cons c rest ih =>
    have own := known c (List.mem_cons_self ..)
    have setup := perform_setup (e := e) (c := c)
    obtain ⟨shown, next⟩ := beside.perform within within' own room (unused c (List.mem_cons_self ..))
    obtain ⟨later, last⟩ := ih next (perform_within within own) (perform_within within' own)
      (fun c mem => known c (List.mem_cons_of_mem _ mem)) (by
        rw [setup.1, setup.2]
        exact fun c mem => unused c (List.mem_cons_of_mem _ mem))
    exact ⟨congrArg₂ List.cons shown later, last⟩

end Engine

end TrustMesh
