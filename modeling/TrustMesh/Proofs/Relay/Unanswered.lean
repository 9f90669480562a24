import TrustMesh.Proofs.Relay.Drops
import TrustMesh.Proofs.Relay.Footprint

/-!
# What is left of a request that nobody can be answered for

A search for this node that names no previous hop, and a query of an unknown sender, are
dropped. A query that is not deduplicated leaves nothing behind. Any other request is
marked before it is dropped, and the mark shows as soon as a call uses it: a copy that could
be answered is taken for a duplicate (`Engine.unanswerable_leaves_mark`,
`Engine.unanswerable_search_hides_copy`).
-/

namespace TrustMesh

namespace Engine

variable {e other : Engine} {s : Surroundings} {sender : Option PeerId} {m : Message}
  {id : MessageId} {c : Call} {calls : List Call} {ids : List MessageId} {capacity : Nat}
  {identity : Identity} {settings : Settings}

/-- A request is dropped because there is nobody to be answered. -/
def Unanswerable (e : Engine) (s : Surroundings) (sender : Option PeerId) (m : Message) : Prop :=
  (e.handle s sender m).result = .dropped .noPreviousHop ∨
    (e.handle s sender m).result = .dropped .unknownSender

/-- A request that nobody can be answered for leaves the engine as it was, or its identifier is marked
and was new. -/
theorem Unanswerable.leaves (unanswerable : e.Unanswerable s sender m) :
    m.body.kind.isRequest = true ∧
      ((e.settings.remembers m.body.kind = false ∧ (e.handle s sender m).engine = e) ∨
        (e.settings.remembers m.body.kind = true ∧ e.seen.contains m.id = false ∧
          (e.handle s sender m).engine = { e with seen := ⟨e.seen.entries.put m.id none⟩ })) := by
  obtain ⟨reason, unsourced, dropped⟩ : ∃ reason,
      (reason = .noPreviousHop ∨ reason = .unknownSender) ∧
        (e.handle s sender m).result = .dropped reason :=
    unanswerable.elim (fun r => ⟨_, .inl rfl, r⟩) fun r => ⟨_, .inr rfl, r⟩
  obtain ⟨next, drops, same⟩ := handle_drops dropped
  rw [same]
  cases drops with
  | unanswerable _ asks _ forgets => exact ⟨asks, .inl ⟨forgets, rfl⟩⟩
  | unanswerableMarked _ asks _ remembers new => exact ⟨asks, .inr ⟨remembers, new, rfl⟩⟩
  | _ => simp at unsourced

/-- A request that was marked before is a duplicate. -/
theorem handle_of_known_request (asks : m.body.kind.isRequest = true)
    (remembers : e.settings.remembers m.body.kind = true) (unpassed : e.Unpassed m)
    (known : e.seen.contains m.id = true) :
    (e.handle s sender m).result = .dropped .duplicate := by
  have passable := unpassed.passable
  cases body : m.body with
  | traceRequest target =>
    simp only [handle, body, onTraceRequest, if_neg passable, SeenCache.mark_of_contains known]
    rfl
  | complianceRequest framework =>
    have dedup : e.settings.complianceDedup = true := by
      simpa [body, Body.kind, Settings.remembers] using remembers
    simp only [handle, body, onComplianceRequest, if_neg passable, admitQuery, dedup, if_true,
      SeenCache.mark_of_contains known]
    rfl
  | _ =>
    rw [body] at asks
    cases asks

/-- Only queries are requests of a kind that may not be remembered. -/
theorem exists_query_of_forgets (asks : m.body.kind.isRequest = true)
    (forgets : e.settings.remembers m.body.kind = false) :
    ∃ framework, m.body = .complianceRequest framework := by
  cases body : m.body with
  | complianceRequest framework => exact ⟨framework, rfl⟩
  | traceRequest target =>
    rw [body] at forgets
    cases forgets
  | _ =>
    rw [body] at asks
    cases asks

/-- A query that is not deduplicated is answered and spread whenever its sender is known. -/
theorem offered_of_query {framework : Framework} {peer : PeerId}
    (asks : m.body = .complianceRequest framework)
    (forgets : e.settings.remembers m.body.kind = false) (unpassed : e.Unpassed m)
    (known : sender.or m.previousHop? = some peer) :
    (e.handle s sender m).offered =
      address s.directory [peer] (m.reply (.complianceResponse (e.grantGraph s framework peer))) ++
        address s.directory (e.floodTargets s.directory m (some peer)) (m.extended e.primary) := by
  have passable := unpassed.passable
  have plain : e.settings.complianceDedup = false := by
    simpa [asks, Body.kind, Settings.remembers] using forgets
  simp only [handle, asks, onComplianceRequest, if_neg passable, admitQuery, plain, known,
    Bool.false_eq_true, if_false, Bool.not_true]
  rfl

/-! ## A mark shows -/

/-- A gossip that is new to one engine and marked on another is treated differently. -/
theorem result_ne_of_gossip {members : List PeerId} {content : Json} {graph : Graph}
    (body : m.body = .gossip members content graph) (new : e.seen.entries.peek? m.id = none)
    (marked : other.seen.entries.peek? m.id = some none) :
    (other.handle s sender m).result ≠ (e.handle s sender m).result := by
  have first := handle_gossip_result e s sender body
  have later := handle_gossip_result other s sender body
  simp only [new] at first
  simp only [marked, reduceCtorEq, if_false] at later
  obtain ⟨sent, shown, source, received⟩ := first
  rw [received, later]
  simp

/-- A request that is new to one engine and marked on another is treated differently. -/
theorem result_ne_of_request (asks : m.body.kind.isRequest = true)
    (remembers : other.settings.remembers m.body.kind = true) (unpassed : other.Unpassed m)
    (new : e.seen.contains m.id = false) (known : other.seen.contains m.id = true) :
    (other.handle s sender m).result ≠ (e.handle s sender m).result := by
  intro same
  rw [handle_of_known_request asks remembers unpassed known] at same
  obtain ⟨next, drops, -⟩ := handle_drops same.symm
  cases drops with
  | repeated before =>
    rw [new] at before
    cases before
  | unanswerable unsourced => simp at unsourced
  | unanswerableMarked unsourced => simp at unsourced

/-- A message that uses an exchange shows whether the exchange was marked before. -/
theorem shown_ne_of_uses (identity : other.identity = e.identity)
    (settings : other.settings = e.settings) (new : e.seen.entries.peek? id = none)
    (marked : other.seen.entries.peek? id = some none) (uses : c.Uses e.identity e.settings id)
    (foreign : ∀ exchange, c.started? ≠ some (id, exchange)) :
    (other.perform c).shown ≠ (e.perform c).shown := by
  intro same
  have result : (other.perform c).result = (e.perform c).result := congrArg Prod.fst same
  rcases uses with spreads | marks
  · cases spreads with
    | start starts => exact foreign _ starts
    | deliver delivered own body =>
      subst own
      rw [perform_of_delivered delivered, perform_of_delivered delivered] at result
      exact result_ne_of_gossip body new marked (Reply.outcome.inj result)
  · cases marks with
    | start starts => exact foreign _ starts
    | @deliver m delivered own asks remembers straight clear =>
      subst own
      have unpassed : e.Unpassed m := ⟨straight, clear⟩
      have unknown : e.seen.contains m.id = false := by
        rw [SeenCache.contains, Recency.contains, new]
        rfl
      rw [perform_of_delivered delivered, perform_of_delivered delivered] at result
      exact result_ne_of_request asks (settings ▸ remembers) (unpassed.of_identity identity) unknown
        (SeenCache.contains_of_peek? marked) (Reply.outcome.inj result)

/-- Two engines that differ in a mark show it in any calls that use the exchange and do not start it. -/
theorem Beside.journal_ne (beside : e.Beside id other) (within : e.seen.entries.Within ids capacity)
    (within' : other.seen.entries.Within ids capacity)
    (known : ∀ c ∈ calls, ∀ own, c.id? = some own → own ∈ ids) (room : ids.length ≤ capacity)
    (new : e.seen.entries.peek? id = none) (marked : other.seen.entries.peek? id = some none)
    (uses : ∃ c ∈ calls, c.Uses e.identity e.settings id)
    (foreign : ∀ c ∈ calls, ∀ exchange, c.started? ≠ some (id, exchange)) :
    (other.journal calls).map Entry.shown ≠ (e.journal calls).map Entry.shown := by
  induction calls generalizing e other with
  | nil => simp at uses
  | cons c rest ih =>
    intro same
    obtain ⟨shown, later⟩ := List.cons.inj same
    have own := known c (List.mem_cons_self ..)
    -- The mark shows in the first call that uses it. Until then it stays, and the engines stay beside
    -- each other.
    by_cases used : c.Uses e.identity e.settings id
    · exact shown_ne_of_uses beside.identity beside.settings new marked used
        (foreign c (List.mem_cons_self ..)) shown
    · have setup := perform_setup (e := e) (c := c)
      have unused : ¬ c.Uses other.identity other.settings id := by
        rwa [beside.identity, beside.settings]
      refine ih (beside.perform within within' own room used).2 (perform_within within own)
        (perform_within within' own) (fun c mem => known c (List.mem_cons_of_mem _ mem)) ?_ ?_ ?_
        (fun c mem => foreign c (List.mem_cons_of_mem _ mem)) later
      · rw [peek?_of_unused within own room used, new]
      · rw [peek?_of_unused within' own room unused, marked]
      · obtain ⟨d, mem, there⟩ := uses
        rw [setup.1, setup.2]
        rcases List.mem_cons.1 mem with rfl | mem
        · exact absurd there used
        · exact ⟨d, mem, there⟩

/-! ## Any calls before and after -/

/-- An engine whose memory marks an exchange differs from the one before in nothing else. -/
theorem beside_marked (within : e.seen.entries.Within ids capacity) (mem : id ∈ ids)
    (room : ids.length ≤ capacity) :
    e.Beside id { e with seen := ⟨e.seen.entries.put id none⟩ } where
  identity := rfl
  settings := rfl
  queries := rfl
  memory probe differ := by
    rw [Recency.peek?_put_of_room within mem room, if_neg differ]

/-- With room, the mark of a request is all that is left of it: it shows exactly in calls that use the
exchange, and copies of the request are duplicates. -/
theorem mark_shows (within : e.seen.entries.Within ids capacity) (mem : m.id ∈ ids)
    (known : ∀ c ∈ calls, ∀ own, c.id? = some own → own ∈ ids) (room : ids.length ≤ capacity)
    (asks : m.body.kind.isRequest = true) (remembers : e.settings.remembers m.body.kind = true)
    (new : e.seen.contains m.id = false) :
    let after : Engine := { e with seen := ⟨e.seen.entries.put m.id none⟩ }
    ((∀ c ∈ calls, ¬ c.Uses e.identity e.settings m.id) →
      (after.journal calls).map Entry.shown = (e.journal calls).map Entry.shown) ∧
    ((∃ c ∈ calls, c.Uses e.identity e.settings m.id) →
      (∀ c ∈ calls, ∀ exchange, c.started? ≠ some (m.id, exchange)) →
        (after.journal calls).map Entry.shown ≠ (e.journal calls).map Entry.shown) ∧
    ∀ s sender route,
      let later := after.run calls
      let copy : Message := { m with route }
      later.Unpassed copy → (later.handle s sender copy).result = .dropped .duplicate := by
  intro after
  have within' : after.seen.entries.Within ids capacity := within.stores (.inr ⟨none, rfl⟩) mem
  have beside : e.Beside m.id after := beside_marked within mem room
  have blank : e.seen.entries.peek? m.id = none := by
    simpa [SeenCache.contains, Recency.contains] using new
  have noted : after.seen.entries.peek? m.id = some none := by
    rw [Recency.peek?_put_of_room within mem room, if_pos rfl]
  refine ⟨fun unused => (beside.run within within' known room unused).1,
    fun uses foreign => beside.journal_ne within within' known room blank noted uses foreign, ?_⟩
  intro s sender route later copy unpassed
  have same : later.settings = e.settings := (run_setup after calls).2
  exact handle_of_known_request asks (same ▸ remembers) unpassed
    (run_contains within' known room (SeenCache.contains_of_peek? noted))

/-- A request that nobody can be answered for is dropped, after any calls. If it is of a kind that is
not remembered, everything goes on as if it had never come, and a copy whose sender is known is
answered and spread. Otherwise its identifier is marked. As long as there is room, everything goes
on as if it had never come until a call uses the identifier, a message that does so is treated
differently, and every copy that is not looped is dropped as a duplicate. -/
theorem unanswerable_leaves_mark (created : create identity settings = .ok e) (front : List Call)
    (s : Surroundings) (sender : Option PeerId) (m : Message)
    (unanswerable : (e.run front).Unanswerable s sender m) :
    let before := e.run front
    let after := (before.handle s sender m).engine
    (settings.remembers m.body.kind = false →
      (∀ rest, (after.journal rest).map Entry.shown = (before.journal rest).map Entry.shown) ∧
        ∃ framework, m.body = .complianceRequest framework ∧ ∀ rest s' sender' route peer,
          let later := after.run rest
          let copy : Message := { m with route }
          later.Unpassed copy → sender'.or copy.previousHop? = some peer →
            (later.handle s' sender' copy).offered =
              address s'.directory [peer]
                  (copy.reply (.complianceResponse (later.grantGraph s' framework peer))) ++
                address s'.directory (later.floodTargets s'.directory copy (some peer))
                  (copy.extended later.primary)) ∧
    (settings.remembers m.body.kind = true → ∀ rest,
      (m.id :: before.seen.entries.keys ++ rest.filterMap Call.id?).dedup.length ≤
          settings.seenCapacity →
        ((∀ c ∈ rest, ¬ c.Uses identity settings m.id) →
          (after.journal rest).map Entry.shown = (before.journal rest).map Entry.shown) ∧
        ((∃ c ∈ rest, c.Uses identity settings m.id) →
          (∀ c ∈ rest, ∀ exchange, c.started? ≠ some (m.id, exchange)) →
            (after.journal rest).map Entry.shown ≠ (before.journal rest).map Entry.shown) ∧
        ∀ s' sender' route,
          let later := after.run rest
          let copy : Message := { m with route }
          later.Unpassed copy → (later.handle s' sender' copy).result = .dropped .duplicate) := by
  intro before after
  obtain ⟨rfl, rfl⟩ := setup_of_create created front
  obtain ⟨asks, ⟨forgets, kept⟩ | ⟨remembers, new, marked⟩⟩ := unanswerable.leaves
  · refine ⟨fun _ => ⟨fun rest => by rw [show after = before from kept], ?_⟩, fun remembers => ?_⟩
    · obtain ⟨framework, body⟩ := exists_query_of_forgets asks forgets
      refine ⟨framework, body, ?_⟩
      intro rest s' sender' route peer later copy unpassed known
      have same : later.settings = before.settings :=
        (run_setup after rest).2.trans (congrArg Engine.settings kept)
      exact offered_of_query body (same ▸ forgets) unpassed known
    · rw [forgets] at remembers
      cases remembers
  · refine ⟨fun forgets => ?_, fun _ rest room => ?_⟩
    · rw [remembers] at forgets
      cases forgets
    · have within : before.seen.entries.Within
          (m.id :: before.seen.entries.keys ++ rest.filterMap Call.id?).dedup
          before.settings.seenCapacity :=
        (within_run_of_create created front).mono fun key there => by simp [before, there]
      rw [show after = _ from marked]
      refine mark_shows within (by simp) (fun c mem own belongs => ?_) room asks remembers new
      exact List.mem_dedup.2 (List.mem_append_right _ (List.mem_filterMap.2 ⟨c, mem, belongs⟩))

/-- A query of an unknown sender leaves nothing behind. A search for this node that names no previous hop
does not show in another search, but a copy that comes after it with a route is dropped. -/
theorem unanswerable_leaves_mark_both :
    let s : Surroundings := .among ⟨"C"⟩ [⟨"B"⟩]
    let query : Message := ⟨.zero, [], .complianceRequest ⟨[], [], [], [], [], .empty⟩⟩
    let search : List PeerId → Message := fun route => ⟨.zero, route, .traceRequest ⟨"C"⟩⟩
    let before := (fresh ⟨"C"⟩).run [.message s none ⟨.ofNat 1, [⟨"B"⟩], .traceRequest ⟨"D"⟩⟩]
    let rest : List Call := [.message s none ⟨.ofNat 2, [⟨"B"⟩], .traceRequest ⟨"E"⟩⟩]
    let left : Message → Engine := fun m => (before.handle s none m).engine
    (before.Unanswerable s none query ∧ before.Unanswerable s none (search [])) ∧
      (∀ calls, ((left query).journal calls).map Entry.shown =
        (before.journal calls).map Entry.shown) ∧
      ((left (search [])).journal rest).map Entry.shown = (before.journal rest).map Entry.shown ∧
      (((left (search [])).run rest).handle s none (search [⟨"A"⟩, ⟨"B"⟩])).result =
        .dropped .duplicate := by
  intro s query search before rest left
  have created : create (.ofPeers ⟨"C"⟩ []) .standard = .ok (fresh ⟨"C"⟩) := by decide
  have asked : before.Unanswerable s none query := .inr (by decide)
  have sought : before.Unanswerable s none (search []) := .inl (by decide)
  have queried := (unanswerable_leaves_mark created _ s none query asked).1 (by decide)
  have searched := (unanswerable_leaves_mark created _ s none (search []) sought).2 (by decide) rest
    (by decide)
  refine ⟨⟨asked, sought⟩, queried.1, searched.1 fun c mem uses => ?_, ?_⟩
  · cases List.mem_singleton.1 mem
    exact absurd uses.belongs (by decide)
  · exact searched.2.2 s none [⟨"A"⟩, ⟨"B"⟩] ⟨by decide, by decide⟩

/-- A search for this node that names no previous hop is dropped. A copy that names one is then dropped
as well; without the first one it is answered. -/
theorem unanswerable_search_hides_copy :
    let s : Surroundings := .among ⟨"C"⟩ [⟨"B"⟩]
    let search : List PeerId → Message := fun route => ⟨.zero, route, .traceRequest ⟨"C"⟩⟩
    let before := fresh ⟨"C"⟩
    let after := (before.handle s (some ⟨"B"⟩) (search [])).engine
    let copy := search [⟨"A"⟩, ⟨"B"⟩]
    create (.ofPeers ⟨"C"⟩ []) .standard = .ok before ∧
      (before.handle s (some ⟨"B"⟩) (search [])).result = .dropped .noPreviousHop ∧
      (after.handle s (some ⟨"B"⟩) copy).result = .dropped .duplicate ∧
      (before.handle s (some ⟨"B"⟩) copy).result = .handled [⟨"B"⟩] none := by
  decide

end Engine

end TrustMesh
