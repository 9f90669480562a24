import TrustMesh.Proofs.Framework.Endurance
import TrustMesh.Proofs.Graph.View
import TrustMesh.Proofs.Mesh.ComplianceReach
import TrustMesh.Proofs.Relay.Telling

/-!
# The last word on a query

With every answer to a compliance query its origin tells a graph of all that was collected
so far. Where nothing but the query is started, nobody else tells anything, and the last
graph that is told shows the whole component, the origin included, once no frame is in
flight (`Runs.last_word`).

An origin that gets no answer tells nothing at all: not even its own roles, with which its
graph begins. So it is if the origin is linked to no other peer, or if no peer can read its
request (`Reaches.told_nothing`).
-/

namespace TrustMesh

open Std

/-- No exchange but this one was started. -/
def History.Only (h : History) (peer : PeerId) (id : MessageId) (exchange : Exchange) : Prop :=
  ∀ p other x, h.Started p other x → p = peer ∧ other = id ∧ x = exchange

theorem History.Only.earlier {h k : History} {peer : PeerId} {id : MessageId} {exchange : Exchange}
    (only : Only (h ++ k) peer id exchange) : h.Only peer id exchange :=
  fun p other x started => only p other x (started.mono k)

namespace Deployment

variable {d : Deployment} {a m : Member} {h : History} {s next : Scene} {n : Network} {deed : Deed}
  {id : MessageId} {framework : Framework} {ids : Nat → MessageId} {event : Event} {f : Flood}

/-- A graph shows the component of a member to this member: itself as `me`, and the others under their
own identifiers, each with exactly its roles. -/
structure Displays (d : Deployment) (a : Member) (framework : Framework) (view : Graph) : Prop where
  self : view.node? .me = some ⟨.me, a.settings.selfLabel, framework.grantedRoles a.oracle⟩
  others : ∀ m ∈ d.members, m ≠ a → d.Joined a.id m.id →
    ∃ node, view.node? m.id = some node ∧ node.labels = framework.grantedRoles m.oracle
  shows : ∀ p, view.Shows p → p = .me ∨ p ≠ a.id ∧ d.Joined a.id p

/-- The view of a graph of the component displays it, if nobody else is called `me`. -/
theorem Charts.displays {g : Graph} (charts : d.Charts a framework g) (sound : g.Sound)
    (first : a ∈ d.members) (plain : ∀ m ∈ d.members, m ≠ a → m.id ≠ .me) :
    d.Displays a framework (g.localized a.identity a.settings.selfLabel) := by
  have foreign : ∀ m ∈ d.members, m ≠ a → a.identity.contains m.id = false := fun m mem other =>
    Bool.eq_false_iff.2 fun own => other (eq_of_id_eq mem first ((contains_id_iff first mem).1 own))
  have own : a.identity.contains a.id = true := (contains_id_iff first first).2 rfl
  obtain ⟨self, found, roles⟩ := charts.labels a first .refl
  constructor
  · have labels : g.ownLabels a.identity = framework.grantedRoles a.oracle := by
      refine OrderedSet.ext_mem fun label => (Graph.mem_ownLabels sound).trans ?_
      rw [← roles]
      constructor
      · rintro ⟨p, node, mine, shown, carried⟩
        obtain ⟨m, mem, rfl⟩ := ((charts.shows p).1 (by simp [Graph.Shows, shown])).member ⟨a, first, rfl⟩
        rw [(contains_id_iff first mem).1 mine, found] at shown
        cases shown
        exact carried
      · exact fun carried => ⟨a.id, self, own, found, carried⟩
    rw [Graph.node?_localized sound, if_pos rfl, Graph.selfNode, labels]
  · intro m mem other joined
    rw [Graph.node?_localized sound, if_neg (plain m mem other), foreign m mem other]
    exact charts.labels m mem joined
  · intro p shown
    rw [Graph.Shows, Graph.node?_localized sound] at shown
    by_cases called : p = .me
    · exact .inl called
    · rw [if_neg called] at shown
      cases whose : a.identity.contains p with
      | true => simp [whose] at shown
      | false =>
        rw [whose] at shown
        refine .inr ⟨?_, (charts.shows p).1 shown⟩
        rintro rfl
        rw [own] at whose
        cases whose

/-! ## Who tells what -/

/-- Where only a query was started, an event is told by its origin, of an answer that it absorbed. -/
theorem Ledger.tells_answer (ledger : d.Ledger h s) (first : a ∈ d.members)
    (only : h.Only a.id id (.comply framework)) (mem : m ∈ d.members) {k : Packet}
    (there : k ∈ s.flight) {surroundings : Surroundings} {sender : Option PeerId}
    (told : ((s.engine m.id).handle surroundings sender k.message).result.event? = some event) :
    m = a ∧ h.Started a.id id (.comply framework) ∧ k.message.id = id ∧
      ∃ graph, k.message.body = .complianceResponse graph ∧ k.message.beginsAt a.identity = true ∧
        event = .complianceUpdated id ((s.engine a.id).localize ((s.engine a.id).absorbed id graph)) := by
  obtain ⟨peer, exchange, began, route, admits, -⟩ := ledger.exchanges k there
  obtain ⟨rfl, own, rfl⟩ := only peer _ exchange began
  obtain ⟨picture, tells⟩ := Engine.handle_tells told
  cases tells with
  | found body => exact (body ▸ admits).elim
  | received body => exact (body ▸ admits).elim
  | changed body => exact (body ▸ admits).elim
  | @answered graph body begins =>
    rw [ledger.identity m mem] at begins
    obtain ⟨origin, head, mine⟩ := Message.beginsAt_iff.1 begins
    rw [route] at head
    cases head
    cases eq_of_id_eq first mem ((contains_id_iff mem first).1 mine)
    exact ⟨rfl, own ▸ began, own, graph, body, begins, own ▸ rfl⟩

/-- All that is told is told by the origin of the query. -/
theorem Reaches.told_by_origin (reaches : d.Reaches h s) (first : a ∈ d.members)
    (only : h.Only a.id id (.comply framework)) (mem : m ∈ d.members)
    (told : event ∈ h.emitted m.id) : m = a ∧ event.isCompliance id = true := by
  obtain ⟨front, rest, before, rfl, earlier, k, there, -, cause⟩ := reaches.exists_cause mem told
  obtain ⟨own, -, -, graph, -, -, rfl⟩ :=
    earlier.ledger.tells_answer first only.earlier mem there cause
  exact ⟨own, decide_eq_true rfl⟩

/-- The graph that the origin tells is its view of what was collected. -/
theorem Reaches.view_of_told (prior : d.Reaches h s) (advance : d.Advance s deed next)
    (distinct : (h ++ [deed]).startedIds.Nodup) (first : a ∈ d.members)
    (only : (h ++ [deed]).Only a.id id (.comply framework))
    (room : ((h ++ [deed]).queriesOf a.id).length ≤ a.settings.seenCapacity)
    (own : deed.peer = a.id) (told : deed.event = some event) :
    event = .complianceUpdated id
      (((h ++ [deed]).collected a framework id).localized a.identity a.settings.selfLabel) := by
  have reaches := prior.advance advance
  have ledger := prior.ledger
  cases advance with
  | start => cases told
  | @handle m mem k rest taken arrived other frame read step call =>
    cases eq_of_id_eq mem first own
    subst call
    obtain ⟨-, began, same, graph, body, begins, rfl⟩ := ledger.tells_answer first only.earlier
      mem (taken ▸ Multiset.mem_cons_self ..) told
    have filed := reaches.workingGraph distinct first room (began.mono _)
    rw [← ledger.identity a first] at begins
    rw [Scene.engine_after_self, Engine.workingGraph?, (Engine.handle_of_answered body begins).1,
      same, Recency.peek?_put_of_room (ledger.within_queries first) (began.mono _).mem_queriesOf room,
      if_pos rfl] at filed
    rw [Engine.localize, ledger.identity a first, ledger.settings a first, Option.some.inj filed]
  | idle idle =>
    rw [idle.event] at told
    cases told

/-- The last graph that the origin told is its view of what was collected. -/
theorem Reaches.latest (reaches : d.Reaches h s) (distinct : h.startedIds.Nodup)
    (first : a ∈ d.members) (only : h.Only a.id id (.comply framework))
    (room : (h.queriesOf a.id).length ≤ a.settings.seenCapacity)
    (latest : (h.emitted a.id).getLast? = some event) :
    event = .complianceUpdated id
      ((h.collected a framework id).localized a.identity a.settings.selfLabel) := by
  induction reaches with
  | opening => cases latest
  | @advance h s next deed prior advance ih =>
    rw [History.emitted_append] at latest
    by_cases tells : ∃ other, deed.peer = a.id ∧ deed.event = some other
    · obtain ⟨other, own, told⟩ := tells
      rw [History.emitted_singleton, if_pos own, told, Option.toList_some,
        List.getLast?_concat] at latest
      cases latest
      exact prior.view_of_told advance distinct first only room own told
    · have untold : deed.peer = a.id → deed.event = none := fun own =>
        Option.eq_none_iff_forall_ne_some.2 fun other told => tells ⟨other, own, told⟩
      have nothing : History.emitted [deed] a.id = [] := by
        simpa [History.emitted] using untold
      rw [nothing, List.append_nil] at latest
      rw [History.queriesOf_append, List.length_append] at room
      rw [collected_of_untold fun own => by simp [untold own]]
      exact ih (History.nodup_startedIds distinct) only.earlier (by omega) latest

/-! ## When the query has come to its end -/

/-- An origin that is linked to another peer was told of its query when that has come to its end. -/
theorem told_of_linked (first : a ∈ d.members) {dedup : Bool}
    {alike : ∀ m ∈ d.members, m.settings.complianceDedup = dedup}
    (settles : (d.complianceInquiry first alike id framework).Settles h f)
    (sorted : ∀ event ∈ h.emitted a.id, event.isCompliance id = true)
    (linked : ∃ q, d.Linked a.id q ∧ q ≠ a.id) : h.emitted a.id ≠ [] := by
  have count : (h.emitted a.id).length = f.heard.card := by
    rw [← List.countP_eq_length.2 sorted]
    exact settles.emitted.trans (congrArg Multiset.card (answers_eq_heard f dedup))
  rw [← List.length_pos_iff, count, Multiset.card_pos_iff_exists_mem]
  obtain ⟨q, linked, apart⟩ := linked
  have reached := (reached_iff_joined settles.orderly settles.asked).2 (.single linked)
  obtain ⟨v, heard, -⟩ := Multiset.mem_map.1 (reached.resolve_left apart)
  exact ⟨v, heard⟩

/-- The graph that a query collected is sound. -/
theorem sound_collected (first : a ∈ d.members) {dedup : Bool}
    {alike : ∀ m ∈ d.members, m.settings.complianceDedup = dedup}
    (settles : (d.complianceInquiry first alike id framework).Settles h f) :
    (h.collected a framework id).Sound := by
  have collects := collects_of_settles first settles
  have answers : ∀ graph ∈ (h.accepted a.id (Event.isCompliance id)).map (·.body.answerGraph),
      graph.Sound := by
    intro graph there
    obtain ⟨v, -, m, -, -, rfl⟩ := (collects.answers graph).1 there
    exact (Graph.sound_single ..).addEdge ..
  rw [History.collected]
  generalize (h.accepted a.id (Event.isCompliance id)).map (·.body.answerGraph) = graphs at answers
  have sound : (a.roleGraph framework).Sound := Graph.sound_single ..
  generalize a.roleGraph framework = g at sound
  induction graphs generalizing g with
  | nil => exact sound
  | cons graph rest ih =>
    exact ih (fun other there => answers other (List.mem_cons_of_mem _ there)) _
      (sound.absorb (answers graph (by simp)))

/-- When no frame is in flight and nothing but a query was started, an origin that is linked to another
peer told a graph last that displays its component. -/
theorem Runs.last_word (runs : d.Runs ids h n) (silent : n.Silent) (distinct : h.startedIds.Nodup)
    (relayable : framework.Relayable) {dedup : Bool}
    (alike : ∀ m ∈ d.members, m.settings.complianceDedup = dedup) (first : a ∈ d.members)
    (room : ∀ m ∈ d.members, h.startedIds.length ≤ m.settings.seenCapacity)
    (plain : ∀ m ∈ d.members, m ≠ a → m.id ≠ .me)
    (started : h.Started a.id id (.comply framework)) (only : h.Only a.id id (.comply framework))
    (linked : ∃ q, d.Linked a.id q ∧ q ≠ a.id) : ∃ view, d.Displays a framework view ∧
      (h.emitted a.id).getLast? = some (.complianceUpdated id view) := by
  obtain ⟨s, reaches, -⟩ := runs.reaches
  obtain ⟨f, settles⟩ := Inquiry.exists_settles (I := d.complianceInquiry first alike id framework)
    runs silent ⟨reaches.legible distinct started relayable, distinct, fun _ => room⟩ started
  have sorted : ∀ event ∈ h.emitted a.id, event.isCompliance id = true := fun event told =>
    (reaches.told_by_origin first only first told).2
  have last := List.getLast?_eq_some_getLast (told_of_linked first settles sorted linked)
  have own : (h.queriesOf a.id).length ≤ a.settings.seenCapacity :=
    (h.length_queriesOf_le a.id).trans (room a first)
  refine ⟨_, (charts_of_settles first settles).displays (sound_collected first settles) first plain,
    last.trans (congrArg _ ?_)⟩
  exact reaches.latest distinct first only own last

/-! ## When nobody hears of the query -/

/-- A query that no other peer can hear of: its origin is linked to none, or none can read it. -/
def Unheard (d : Deployment) (a : Member) (framework : Framework) : Prop :=
  (∀ q, d.Linked a.id q → q = a.id) ∨ ∀ g, ¬ framework.Hop g

/-- No frame of a query that nobody can hear of arrives. -/
theorem Unheard.arrivals (unheard : d.Unheard a framework) (first : a ∈ d.members) {e : Engine}
    (serves : e.Serves a) (id : MessageId) :
    arrivals (e.start (d.surroundings a) id (.comply framework)).offered = 0 := by
  refine Multiset.eq_zero_of_forall_notMem fun k there => ?_
  obtain ⟨o, offer, arrives⟩ := mem_arrivals there
  rcases unheard with alone | lost
  · have nobody : d.frontier ⟨[], a.id⟩ = [] := List.eq_nil_iff_forall_not_mem.2 fun q asked => by
      obtain ⟨linked, onward⟩ := mem_frontier.1 asked
      exact onward (by simp [alone q linked, Stop.path])
    have nothing := packets_startCompliance first serves id framework
    rw [nobody] at nothing
    have offered : o.packet ∈ packets (e.startCompliance (d.surroundings a) id framework).offered :=
      mem_packets.2 ⟨o, offer, rfl⟩
    rw [nothing] at offered
    cases offered
  · have read := (Dispatch.read_of_arrival arrives).2
    obtain ⟨g, hop⟩ := Framework.exists_hop (Engine.start_composes offer) read
    exact lost g hop

/-- If nobody can hear of the only query that was started, no frame is in flight and nothing was told. -/
theorem Reaches.told_nothing (reaches : d.Reaches h s) (first : a ∈ d.members)
    (only : h.Only a.id id (.comply framework)) (unheard : d.Unheard a framework) :
    s.flight = 0 ∧ ∀ peer, h.emitted peer = [] := by
  induction reaches with
  | opening opening => exact ⟨opening.flight, fun _ => rfl⟩
  | @advance h s next deed prior advance ih =>
    obtain ⟨flight, quiet⟩ := ih only.earlier
    have told : next.flight = 0 ∧ deed.event = none := by
      cases advance with
      | @start m mem ticket other exchange step call =>
        obtain ⟨own, rfl, rfl⟩ := only _ _ _ (h.started_concat rfl rfl)
        cases eq_of_id_eq mem first own
        subst call
        refine ⟨?_, rfl⟩
        rw [Scene.after, flight, unheard.arrivals first (prior.ledger.serves first), add_zero]
      | handle mem taken => exact (Multiset.zero_ne_cons (flight.symm.trans taken)).elim
      | idle idle => exact ⟨flight, idle.event⟩
    refine ⟨told.1, fun peer => ?_⟩
    rw [History.emitted_append, quiet peer, History.emitted_singleton, told.2]
    simp

end Deployment

end TrustMesh
