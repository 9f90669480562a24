import TrustMesh.Proofs.Relay.Forwarding
import TrustMesh.Proofs.Relay.Passing
import TrustMesh.Proofs.Relay.Telling

/-!
# What counts as having heard of a gossip

An engine has one memory for exchanges of all kinds. Two kinds of call store something
there: a gossip that is started or delivered stores the digest of its graph
(`Call.Spreads`), a request that is started or delivered marks its identifier
(`Call.Marks`).

An engine that stored nothing under the identifier of a gossip shows the gossip and passes
it on, whatever other calls came before (`Engine.shows_unheard_gossip`). A mark is enough
to spoil this: the gossip is then taken for a copy of a known one whose graph has changed
(`Engine.search_hides_gossip`).
-/

namespace TrustMesh

namespace Call

/-- A call starts or delivers a gossip. -/
inductive Spreads (c : Call) (id : MessageId) : Prop where
  | start {members : List PeerId} {content : Json}
      (starts : c.started? = some (id, .gossip members content))
  | deliver {m : Message} {members : List PeerId} {content : Json} {graph : Graph}
      (delivered : c.message? = some m) (own : m.id = id)
      (body : m.body = .gossip members content graph)

/-- A call marks an exchange: it starts a search or a query, or it delivers a request that has not
passed this node. Queries count only if they are deduplicated. -/
inductive Marks (identity : Identity) (settings : Settings) (c : Call) (id : MessageId) : Prop where
  | start {exchange : Exchange} (starts : c.started? = some (id, exchange))
      (asks : exchange.opening.isRequest = true)
      (remembered : settings.remembers exchange.opening = true)
  | deliver {m : Message} (delivered : c.message? = some m) (own : m.id = id)
      (asks : m.body.kind.isRequest = true) (remembered : settings.remembers m.body.kind = true)
      (straight : m.hasLoop = false) (foreign : m.route.any identity.contains = false)

variable {identity : Identity} {settings : Settings} {c : Call} {id : MessageId}

theorem Spreads.belongs (spreads : c.Spreads id) : c.id? = some id := by
  cases spreads with
  | start starts => exact id?_of_started? starts
  | deliver delivered own => exact own ▸ id?_of_message? delivered

theorem Marks.belongs (marks : c.Marks identity settings id) : c.id? = some id := by
  cases marks with
  | start starts => exact id?_of_started? starts
  | deliver delivered own => exact own ▸ id?_of_message? delivered

end Call

namespace Engine

variable {e : Engine} {s : Surroundings} {sender : Option PeerId} {m : Message} {id : MessageId}
  {c : Call} {calls : List Call} {identity : Identity} {settings : Settings}
  {members : List PeerId} {content : Json} {graph : Graph}

/-! ## One call -/

/-- A gossip stores the digest of its graph. -/
theorem seen_of_spreads (spreads : c.Spreads id) : ∃ digest,
    (e.perform c).engine.seen.entries = e.seen.entries.put id (some digest) := by
  cases spreads with
  | start starts =>
    obtain ⟨s, rfl⟩ := Call.eq_start_of_started? starts
    exact ⟨_, e.seen.entries_observe id _⟩
  | deliver delivered own body =>
    subst own
    rw [perform_of_delivered delivered]
    exact ⟨_, handle_gossip_entries body⟩

/-- A request of a kind that is remembered is marked, unless it passed this node before. -/
theorem seen_of_request (asks : m.body.kind.isRequest = true)
    (remembered : e.settings.remembers m.body.kind = true) (unpassed : e.Unpassed m) :
    (e.handle s sender m).engine.seen = (e.seen.mark m.id).2 := by
  have passable := unpassed.passable
  cases body : m.body with
  | traceRequest target =>
    simp only [handle, body, onTraceRequest, if_neg passable]
    repeat' split
    all_goals rfl
  | complianceRequest framework =>
    have dedup : e.settings.complianceDedup = true := by
      simpa [body, Body.kind, Settings.remembers] using remembered
    simp only [handle, body, onComplianceRequest, if_neg passable, admitQuery, dedup, if_true]
    repeat' split
    all_goals rfl
  | _ =>
    rw [body] at asks
    cases asks

/-- A mark keeps the digest that is stored under its identifier. -/
theorem seen_of_marks (marks : c.Marks e.identity e.settings id) :
    (e.perform c).engine.seen.entries = e.seen.entries.put id (e.seen.digest? id) := by
  cases marks with
  | @start exchange starts asks remembered =>
    obtain ⟨s, rfl⟩ := Call.eq_start_of_started? starts
    cases exchange with
    | trace target => exact e.seen.entries_mark id
    | gossip members content => cases asks
    | comply framework =>
      have dedup : e.settings.complianceDedup = true := remembered
      simp only [perform, start, startCompliance, admitQuery, dedup, if_true]
      exact e.seen.entries_mark id
  | deliver delivered own asks remembered straight foreign =>
    subst own
    rw [perform_of_delivered delivered, ← e.seen.entries_mark]
    exact congrArg SeenCache.entries (seen_of_request asks remembered ⟨straight, foreign⟩)

/-- Answers, requests that passed this node before, and requests of a kind that is not remembered
leave the memory alone. -/
theorem seen_of_handle (quiet : m.body.kind ≠ .gossip)
    (unmarked : m.body.kind.isRequest = true → e.settings.remembers m.body.kind = true →
      ¬ e.Unpassed m) : (e.handle s sender m).engine.seen = e.seen := by
  cases body : m.body with
  | traceRequest target =>
    have passed : (m.hasLoop || e.onRoute m) = true := by
      by_contra passable
      exact unmarked (by rw [body]; rfl) (by rw [body]; rfl) (unpassed_of_not passable)
    simp only [handle, body, onTraceRequest, if_pos passed]
    rfl
  | traceResponse target graph =>
    simp only [handle, body, onTraceResponse]
    split <;> rfl
  | gossip members content graph => exact absurd (by rw [body]; rfl) quiet
  | complianceRequest framework =>
    simp only [handle, body, onComplianceRequest]
    split
    · rfl
    · rename_i passable
      have plain : ¬ e.settings.complianceDedup = true := by
        intro dedup
        refine unmarked (by rw [body]; rfl) ?_ (unpassed_of_not passable)
        rw [body]
        exact dedup
      simp only [admitQuery, if_neg plain]
      repeat' split
      all_goals rfl
  | complianceResponse graph =>
    simp only [handle, body, onComplianceResponse]
    split <;> rfl

/-- A call that neither spreads nor marks anything leaves the memory alone. -/
theorem seen_of_quiet (quiet : ∀ id, ¬ c.Spreads id)
    (unmarked : ∀ id, ¬ c.Marks e.identity e.settings id) :
    (e.perform c).engine.seen = e.seen := by
  rcases c.sorts with ⟨m, delivered⟩ | ⟨id, exchange, starts⟩ | silent
  · rw [perform_of_delivered delivered]
    refine seen_of_handle (fun spreads => ?_) fun asks remembered unpassed => ?_
    · cases body : m.body with
      | gossip members content graph => exact quiet m.id (.deliver delivered rfl body)
      | _ =>
        rw [body] at spreads
        cases spreads
    · exact unmarked m.id (.deliver delivered rfl asks remembered unpassed.straight unpassed.foreign)
  · obtain ⟨s, rfl⟩ := Call.eq_start_of_started? starts
    cases exchange with
    | trace target => exact absurd (.start starts rfl rfl) (unmarked id)
    | gossip members content => exact absurd (.start starts) (quiet id)
    | comply framework =>
      have plain : ¬ e.settings.complianceDedup = true := fun dedup =>
        unmarked id (.start starts rfl dedup)
      simp only [perform, start, startCompliance, admitQuery, if_neg plain]
      rfl
  · rw [engine_of_silent silent]

/-- What a call stores, it stores under the identifier of a gossip or of a request. -/
theorem exists_of_seen_ne (changed : (e.perform c).engine.seen ≠ e.seen) :
    ∃ id, (c.Spreads id ∨ c.Marks e.identity e.settings id) ∧
      ∃ value, (e.perform c).engine.seen.entries = e.seen.entries.put id value ∧
        (¬ c.Spreads id → value = e.seen.digest? id) := by
  by_cases spreads : ∃ id, c.Spreads id
  · obtain ⟨id, spreads⟩ := spreads
    obtain ⟨digest, stored⟩ := seen_of_spreads (e := e) spreads
    exact ⟨id, .inl spreads, _, stored, fun other => absurd spreads other⟩
  · by_cases marks : ∃ id, c.Marks e.identity e.settings id
    · obtain ⟨id, marks⟩ := marks
      exact ⟨id, .inr marks, _, seen_of_marks marks, fun _ => rfl⟩
    · refine absurd (seen_of_quiet ?_ ?_) changed
      · exact fun id own => spreads ⟨id, own⟩
      · exact fun id own => marks ⟨id, own⟩

/-- A gossip under an identifier that is remembered without a digest is shown as a graph that
changed, and not passed on. -/
theorem handle_of_marked_gossip (s : Surroundings) (sender : Option PeerId)
    (body : m.body = .gossip members content graph)
    (known : e.seen.contains m.id = true) (blank : e.seen.digest? m.id = none) :
    (e.handle s sender m).result.event? = some (.graphUpdated m.id (e.localize graph)) ∧
      (e.handle s sender m).offered = [] := by
  have found : e.seen.entries.peek? m.id = some none := by
    obtain ⟨value, found⟩ := Option.isSome_iff_exists.1 known
    rw [SeenCache.digest?, found] at blank
    rw [found]
    exact congrArg some blank
  have changed : (e.seen.observe m.id graph.digest).1 = .changed := by
    simp [SeenCache.observe, found]
  simp only [handle, body, onGossip, changed]
  exact ⟨rfl, rfl⟩

/-! ## Any number of calls -/

/-- Nothing is remembered of an exchange that no call spread or marked. -/
theorem contains_run_of_unheard (created : create identity settings = .ok e)
    (unheard : ∀ c ∈ calls, ¬ c.Spreads id)
    (unmarked : ∀ c ∈ calls, ¬ c.Marks identity settings id) :
    (e.run calls).seen.contains id = false := by
  rw [eq_of_create created]
  refine (run_invariant (fun f => f.identity = identity ∧ f.settings = settings ∧
    f.seen.contains id = false) ⟨rfl, rfl, rfl⟩ ?_).2.2
  rintro f c mem ⟨rfl, rfl, absent⟩
  refine ⟨perform_setup.1, perform_setup.2, ?_⟩
  by_cases kept : (f.perform c).engine.seen = f.seen
  · rwa [kept]
  · obtain ⟨other, stores, value, stored, -⟩ := exists_of_seen_ne kept
    have differ : id ≠ other := by
      rintro rfl
      exact stores.elim (unheard c mem) (unmarked c mem)
    refine Bool.eq_false_iff.2 fun there => ?_
    rw [SeenCache.contains_of_stores (.inr ⟨value, stored⟩) differ there] at absent
    cases absent

/-- No digest is remembered of an exchange that no call spread. -/
theorem digest?_run_of_unheard (created : create identity settings = .ok e)
    (unheard : ∀ c ∈ calls, ¬ c.Spreads id) : (e.run calls).seen.digest? id = none := by
  rw [eq_of_create created]
  refine run_invariant (fun f => f.seen.digest? id = none) rfl fun f c mem blank => ?_
  by_cases kept : (f.perform c).engine.seen = f.seen
  · rwa [kept]
  · obtain ⟨other, -, value, stored, own⟩ := exists_of_seen_ne kept
    refine SeenCache.digest?_of_put stored blank ?_
    rintro rfl
    rw [own (unheard c mem), blank]

/-- With room, an exchange that some call marked is remembered. -/
theorem contains_run_of_marked (created : create identity settings = .ok e)
    (room : (calls.filterMap Call.id?).dedup.length ≤ settings.seenCapacity)
    (mem : c ∈ calls) (marks : c.Marks identity settings id) :
    (e.run calls).seen.contains id = true := by
  obtain ⟨front, rest, rfl⟩ := List.append_of_mem mem
  have known : ∀ d ∈ front ++ c :: rest, ∀ id, d.id? = some id →
      id ∈ ((front ++ c :: rest).filterMap Call.id?).dedup :=
    fun d mem id belongs => List.mem_dedup.2 (List.mem_filterMap.2 ⟨d, mem, belongs⟩)
  have before : (e.run front).seen.entries.Within _ settings.seenCapacity :=
    run_within (by rw [eq_of_create created]; exact Recency.within_empty ..)
      fun d mem => known d (List.mem_append_left _ mem)
  have own := known c (by simp)
  obtain ⟨same, same'⟩ := setup_of_create created front
  have stored := seen_of_marks (e := e.run front) (same.symm ▸ same'.symm ▸ marks)
  have there := SeenCache.contains_of_put stored before (own id marks.belongs) room
  rw [run_append, run_cons]
  exact run_contains (perform_within before own) (fun d later => known d (by simp [later])) room there

/-- A gossip of which no call spread a copy before is shown and passed on if no call marked its
identifier, whatever else was called. With room, a mark is enough for it to be shown as a graph that
changed and not passed on. A graph is shown as changed only after some call spread the gossip or
marked its identifier. -/
theorem shows_unheard_gossip (created : create identity settings = .ok e) (front : List Call)
    (c : Call) :
    let x : Entry := ⟨e.run front, c⟩
    (∀ m members content graph, c.message? = some m → m.body = .gossip members content graph →
      (∀ d ∈ front, ¬ d.Spreads m.id) →
        let source := c.sender?.or m.previousHop?
        let grown := x.before.observeSender c.surroundings.directory graph source
        ((∀ d ∈ front, ¬ d.Marks identity settings m.id) →
          x.event? =
              some (.gossipReceived m.id content members (x.before.localize grown) source) ∧
            x.offered = address c.surroundings.directory
              (members.filter fun peer => !identity.contains peer && some peer ≠ source)
              ⟨m.id, m.route ++ [identity.primary], .gossip members content grown⟩) ∧
        ((front.filterMap Call.id?).dedup.length ≤ settings.seenCapacity →
          (∃ d ∈ front, d.Marks identity settings m.id) →
            x.event? = some (.graphUpdated m.id (x.before.localize graph)) ∧ x.offered = [])) ∧
    ∀ id shown, x.event? = some (.graphUpdated id shown) →
      ∃ d ∈ front, d.Spreads id ∨ d.Marks identity settings id := by
  intro x
  constructor
  · intro m members content graph delivered body unheard source grown
    have event : x.event? = (x.before.handle c.surroundings c.sender? m).result.event? := by
      rw [Entry.event?, Entry.outcome?, Entry.step, perform_of_delivered delivered]
      rfl
    have offered : x.offered = (x.before.handle c.surroundings c.sender? m).offered := by
      rw [Entry.offered, Entry.step, perform_of_delivered delivered]
      rfl
    rw [event, offered]
    refine ⟨fun unmarked => ?_, ?_⟩
    · have own : x.before.identity = identity := (setup_of_create created front).1
      have shown := handle_of_new_gossip c.surroundings c.sender? body
        (contains_run_of_unheard created unheard unmarked)
      rwa [primary, own] at shown
    · rintro room ⟨d, mem, marks⟩
      exact handle_of_marked_gossip _ _ body (contains_run_of_marked created room mem marks)
        (digest?_run_of_unheard created unheard)
  · intro id shown told
    obtain ⟨m, s, sender, picture, -, tells⟩ := Entry.tells told
    cases tells with
    | changed body known =>
      by_contra unnoted
      have absent : x.before.seen.contains m.id = false := contains_run_of_unheard created
        (fun d mem spreads => unnoted ⟨d, mem, .inl spreads⟩)
        fun d mem marks => unnoted ⟨d, mem, .inr marks⟩
      rw [absent] at known
      cases known

/-- A peer that was handed another search, and an answer and a query under the identifier of a gossip,
shows the gossip and passes it on: queries are not marked unless they are deduplicated. -/
theorem shows_unheard_gossip_crowded :
    let s : Surroundings := .among ⟨"B"⟩ [⟨"A"⟩, ⟨"C"⟩]
    let framework : Framework := ⟨[], [], [], [], [], .empty⟩
    let front : List Call := [
      .message s (some ⟨"A"⟩) ⟨.ofNat 1, [⟨"A"⟩], .traceRequest ⟨"D"⟩⟩,
      .message s (some ⟨"A"⟩) ⟨.zero, [⟨"A"⟩], .traceResponse ⟨"D"⟩ .empty⟩,
      .message s (some ⟨"A"⟩) ⟨.zero, [⟨"A"⟩], .complianceRequest framework⟩]
    let gossip : Message := ⟨.zero, [⟨"A"⟩], .gossip [⟨"A"⟩, ⟨"B"⟩, ⟨"C"⟩] .null .empty⟩
    let x : Entry := ⟨(fresh ⟨"B"⟩).run front, .message s (some ⟨"A"⟩) gossip⟩
    create (.ofPeers ⟨"B"⟩ []) .standard = .ok (fresh ⟨"B"⟩) ∧
      (∃ graph, x.event? = some
        (.gossipReceived .zero .null [⟨"A"⟩, ⟨"B"⟩, ⟨"C"⟩] graph (some ⟨"A"⟩))) ∧
      x.offered.map (·.link.far) = [⟨"C"⟩] := by
  intro s framework front gossip x
  have created : create (.ofPeers ⟨"B"⟩ []) .standard = .ok (fresh ⟨"B"⟩) := by decide
  have unheard : ∀ d ∈ front, ¬ d.Spreads .zero := by
    intro d mem spreads
    simp only [front, List.mem_cons, List.not_mem_nil, or_false] at mem
    rcases mem with rfl | rfl | rfl <;>
    · rcases spreads with ⟨⟨⟩⟩ | ⟨⟨⟩, -, ⟨⟩⟩
  have unmarked : ∀ d ∈ front, ¬ d.Marks (.ofPeers ⟨"B"⟩ []) .standard .zero := by
    intro d mem marks
    simp only [front, List.mem_cons, List.not_mem_nil, or_false] at mem
    rcases mem with rfl | rfl | rfl
    · rcases marks with ⟨⟨⟩⟩ | ⟨⟨⟩, own⟩
      exact absurd own (by decide)
    · rcases marks with ⟨⟨⟩⟩ | ⟨⟨⟩, -, ⟨⟩⟩
    · rcases marks with ⟨⟨⟩⟩ | ⟨⟨⟩, -, -, ⟨⟩⟩
  have shown := (shows_unheard_gossip created front x.call).1 gossip _ _ _ rfl rfl unheard
  obtain ⟨event, offered⟩ := shown.1 unmarked
  exact ⟨created, ⟨_, event⟩, by rw [offered]; rfl⟩

/-- A peer that passed on a search, and is then handed a gossip under the same identifier, takes it
for a copy with another graph: the gossip is not shown, and the other member never gets it. -/
theorem search_hides_gossip :
    let s : Surroundings := .among ⟨"B"⟩ [⟨"A"⟩, ⟨"C"⟩]
    let front : List Call := [.message s (some ⟨"A"⟩) ⟨.zero, [⟨"A"⟩], .traceRequest ⟨"D"⟩⟩]
    let gossip : Message := ⟨.zero, [⟨"A"⟩], .gossip [⟨"A"⟩, ⟨"B"⟩, ⟨"C"⟩] .null .empty⟩
    let x : Entry := ⟨(fresh ⟨"B"⟩).run front, .message s (some ⟨"A"⟩) gossip⟩
    create (.ofPeers ⟨"B"⟩ []) .standard = .ok (fresh ⟨"B"⟩) ∧
      (∀ d ∈ front, ¬ d.Spreads .zero) ∧
      (∃ graph, x.event? = some (.graphUpdated .zero graph)) ∧ x.offered = [] := by
  intro s front gossip x
  have unheard : ∀ d ∈ front, ¬ d.Spreads .zero := by
    intro d mem spreads
    cases List.mem_singleton.1 mem
    rcases spreads with ⟨⟨⟩⟩ | ⟨⟨⟩, -, ⟨⟩⟩
  have told := handle_of_marked_gossip (e := x.before) (m := gossip) s (some ⟨"A"⟩) rfl
    (by decide) (by decide)
  exact ⟨by decide, unheard, ⟨_, told.1⟩, told.2⟩

end Engine

end TrustMesh
