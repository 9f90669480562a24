import Mathlib.Tactic.Abel
import TrustMesh.Proofs.Mesh.Course
import TrustMesh.Proofs.Mesh.Frontier
import TrustMesh.Proofs.Mesh.Reflection

/-!
# Inquiries

Traces and compliance queries work alike: requests flood the mesh, and answers go back
along the routes of the requests. An `Inquiry` is such an exchange with the laws that its
requests and answers obey one call at a time. From these `Inquiry.exists_tracks` gets that
a flood of the plan accounts for every message of the inquiry in flight, for every answer
that was given and for every answer that was taken in at the origin.

Which exchanges are inquiries is not settled here.
-/

namespace TrustMesh

open Std Deployment

variable {d : Deployment}

/-- An exchange of a member, the plan by which its request spreads, and the answer to each visit. -/
structure Survey (d : Deployment) where
  origin : Member
  member : origin ∈ d.members
  id : MessageId
  exchange : Exchange
  plan : Plan d
  begins : plan.origin = origin.id
  request : Body
  reply : Visit → Body
  sort : Event → Bool

namespace Survey

/-- The request of a visit, in flight. -/
def asking (q : Survey d) (v : Visit) : Packet :=
  ⟨v.before.peer, v.peer, q.id, v.before.path, q.request⟩

/-- The answer to a visit. -/
def answer (q : Survey d) (v : Visit) : Message := ⟨q.id, v.before.path, q.reply v⟩

/-- The answer to a visit, in flight to where the request came from. -/
def answering (q : Survey d) (v : Visit) : Packet := ⟨v.peer, v.before.peer, q.answer v⟩

/-- What is offered in return for a visit that is heard. -/
def offers (q : Survey d) (v : Visit) : Multiset Packet :=
  (if q.plan.answers v then {q.answering v} else 0) + (q.plan.children v.stop).map q.asking

end Survey

/-- A survey whose requests and answers are handled as its plan says. Unless the plan is thorough,
peers remember the question and ignore it the next time. -/
structure Inquiry (d : Deployment) extends Survey d where
  settled : plan.once → ¬ plan.thorough
  asks : request.isAnswer = false
  replies : ∀ v, (reply v).isAnswer = true
  own : ∀ event, sort event = true → event.id = id
  tells : ∀ {e : Engine} {s : Surroundings} {sender : Option PeerId} {v : Visit} {event : Event},
    (e.handle s sender (toSurvey.answer v)).result.event? = some event → sort event = true
  opens : ∀ {e : Engine}, e.Serves origin →
    packets (e.start (d.surroundings origin) id exchange).offered =
      (plan.children plan.root).map toSurvey.asking
  hears : ∀ {m : Member} {e : Engine} {v : Visit}, m ∈ d.members → e.Serves m → v.peer = m.id →
    plan.Allows v → (¬ plan.thorough → e.seen.contains id = false) →
    packets (e.handle (d.surroundings m) (some v.before.peer) (toSurvey.asking v).message).offered =
      toSurvey.offers v
  ignores : ∀ {m : Member} {e : Engine} {v : Visit}, m ∈ d.members → e.Serves m → v.peer = m.id →
    plan.Allows v → ¬ plan.thorough → e.seen.contains id = true →
    (e.handle (d.surroundings m) (some v.before.peer) (toSurvey.asking v).message).offered = []
  quiet : ∀ {e : Engine} {s : Surroundings} {sender : Option PeerId} {v : Visit},
    (e.handle s sender (toSurvey.asking v).message).result.event? = none
  remembers : ∀ {m : Member} {e : Engine} {v : Visit}, m ∈ d.members → e.Serves m → v.peer = m.id →
    plan.Allows v → ¬ plan.thorough → ∃ value,
      (e.handle (d.surroundings m) (some v.before.peer)
          (toSurvey.asking v).message).engine.seen.entries =
        e.seen.entries.put id value

/-- Away from its origin, an answer goes to an earlier peer of its route. -/
theorem exists_returnHop {origin m : Member} {path : List PeerId} (first : origin ∈ d.members)
    (mem : m ∈ d.members) (trail : d.Trail origin.id path) (there : m.id ∈ path)
    (away : m.id ≠ origin.id) :
    ∃ hop ∈ path, ReturnHop.ofRoute path m.identity (d.directory m.id) = .forward ⟨m.id, hop⟩ := by
  have known : ∀ q ∈ path, ∃ n ∈ d.members, n.id = q := fun q passed =>
    (trail.joined q passed).member ⟨origin, first, rfl⟩
  obtain ⟨front, rest, whole, hop, passed, forward⟩ :=
    exists_earlier_returnHop mem trail.linked trail.simple known there fun same =>
      away (Option.some.inj (same.symm.trans trail.begins))
  exact ⟨hop, whole ▸ List.mem_append_left _ passed, forward⟩

namespace Inquiry

variable {I : Inquiry d} {h : History} {s next : Scene} {f : Flood} {deed : Deed}

/-- What is known of a history in which an inquiry gets through and its peers can tell that they heard
it: its messages can be read, the exchanges have different identifiers and, if no peer may hear it
twice, memories hold all of them. -/
structure Regime (I : Inquiry d) (h : History) : Prop where
  legible : h.Legible I.id
  distinct : h.startedIds.Nodup
  room : I.plan.once → ∀ m ∈ d.members, h.startedIds.length ≤ m.settings.seenCapacity

theorem Regime.earlier (regime : I.Regime (h ++ [deed])) : I.Regime h := by
  obtain ⟨legible, distinct, room⟩ := regime
  refine ⟨legible.earlier, History.nodup_startedIds distinct, fun once m mem => ?_⟩
  have bound := room once m mem
  rw [History.startedIds_append, List.length_append] at bound
  omega

/-- A flood accounts for an inquiry: for its messages in flight, for the peers that remember it, for
the answers that the origin took in and for those that each peer gave. -/
structure Tracks (I : Inquiry d) (h : History) (s : Scene) (f : Flood) : Prop where
  reaches : I.plan.Reaches f
  flight : ∃ answers : Multiset Packet, s.about I.id = f.asked.map I.asking + answers ∧
    answers.map (·.message) = f.back.map I.answer ∧ ∀ k ∈ answers, k.far ∈ k.message.route
  seen : ¬ I.plan.thorough → ∀ m ∈ d.members, (s.engine m.id).seen.contains I.id = true →
    m.id = I.origin.id ∨ m.id ∈ f.reached
  remembered : I.plan.once → ∀ m ∈ d.members, m.id ∈ f.reached →
    (s.engine m.id).seen.contains I.id = true
  accepted : (h.accepted I.origin.id I.sort : Multiset Message) = f.home.map I.answer
  replied : ∀ peer, (h.replies peer I.id : Multiset Message) =
    (f.heard.filter fun v => v.peer = peer ∧ I.plan.answers v = true).map I.answer

/-- Deeds in other exchanges leave an inquiry alone. -/
theorem Tracks.other (tracks : I.Tracks h s f) (ledger : d.Ledger h s) {m : Member}
    (mem : m ∈ d.members) {id : MessageId} {engine : Engine} {rest : Multiset Packet}
    (keeps : (s.engine m.id).Keeps id engine) (differ : I.id ≠ id)
    (known : id ∈ (h ++ [deed]).startedIds) (regime : I.Regime (h ++ [deed]))
    (about : rest.filter (·.message.id = I.id) = s.about I.id)
    (offered : ∀ o ∈ deed.offered, o.message.id = id)
    (told : ∀ event, deed.event = some event → event.id = id) :
    I.Tracks (h ++ [deed]) (s.after m.id engine rest deed.offered) f := by
  constructor
  · exact tracks.reaches
  · obtain ⟨answers, flight, rest⟩ := tracks.flight
    refine ⟨answers, ?_, rest⟩
    rw [Scene.about_after_of_other fun o offer => offered o offer ▸ Ne.symm differ, about, flight]
  · intro marks other there contains
    by_cases same : other.id = m.id
    · rw [same, Scene.engine_after_self] at contains
      exact tracks.seen marks other there
        (same ▸ SeenCache.contains_of_stores keeps.seen differ contains)
    · rw [Scene.engine_after_of_ne same] at contains
      exact tracks.seen marks other there contains
  · intro once other there reached
    rw [ledger.contains_after mem keeps differ known (regime.room once m mem)]
    exact tracks.remembered once other there reached
  · have untold : ¬ deed.event.any I.sort = true := by
      cases event : deed.event with
      | none => simp
      | some event' =>
        intro hit
        exact differ ((I.own _ hit).symm.trans (told _ event))
    rw [History.accepted_of_untold fun _ => untold, tracks.accepted]
  · intro peer
    have none :
        ((deed.offered.map (·.message)).filter fun m => m.id = I.id ∧ m.body.isAnswer) = [] := by
      refine List.filter_eq_nil_iff.2 fun message there => ?_
      obtain ⟨o, offer, rfl⟩ := List.mem_map.1 there
      simp [offered o offer, Ne.symm differ]
    rw [History.replies_append, History.replies_singleton, none, ite_self, List.append_nil,
      tracks.replied]

/-- A deed that comes to nothing leaves an inquiry alone. -/
theorem Tracks.idle (tracks : I.Tracks h s f) (idle : deed.Idle) : I.Tracks (h ++ [deed]) s f := by
  refine { tracks with accepted := ?_, replied := fun peer => ?_ }
  · rw [History.accepted_idle h idle, tracks.accepted]
  · rw [History.replies_idle h idle, tracks.replied]

/-- The answers that a peer gives when it hears a visit. -/
theorem replies_of_offers (I : Inquiry d) {v : Visit} (peer : deed.peer = v.peer)
    (received : deed.received? = some (I.asking v).message)
    (offers : packets deed.offered = I.offers v) (p : PeerId) :
    (History.replies [deed] p I.id : Multiset Message) =
      if v.peer = p ∧ I.plan.answers v = true then {I.answer v} else 0 := by
  have given : (((deed.offered.map (·.message)).filter fun m =>
      m.id = I.id ∧ m.body.isAnswer : List Message) : Multiset Message) =
        ((I.offers v).map (·.message)).filter fun m => m.id = I.id ∧ m.body.isAnswer := by
    rw [← offers, packets, Multiset.map_coe, List.map_map]
    simp [Dispatch.packet, Function.comp_def]
  have requests : (((I.plan.children v.stop).map I.asking).map (·.message)).filter
      (fun m => m.id = I.id ∧ m.body.isAnswer = true) = 0 := by
    refine Multiset.filter_eq_nil.2 fun message there => ?_
    simp only [Multiset.map_map, Multiset.mem_map] at there
    obtain ⟨w, -, rfl⟩ := there
    simp [Survey.asking, I.asks]
  rw [History.replies_singleton, peer, received]
  simp only [Option.all_some, Survey.asking, I.asks, Bool.not_false, and_true]
  by_cases here : v.peer = p
  · rw [if_pos here, given, Survey.offers, Multiset.map_add, Multiset.filter_add, requests, add_zero]
    simp only [here, true_and]
    split
    · simp [Survey.answering, Survey.answer, I.replies]
    · simp
  · simp [here]

/-- What peers remember after one of them was asked. -/
theorem Tracks.memory (tracks : I.Tracks h s f) (ledger : d.Ledger h s) {m : Member}
    (mem : m ∈ d.members) {engine : Engine} (rest : Multiset Packet) (offered : List Dispatch)
    (f' : Flood) (reached : ∀ q, q ∈ f'.reached ↔ q ∈ f.reached ∨ q = m.id)
    (stored : ¬ I.plan.thorough → ∃ value, engine.seen.entries =
      (s.engine m.id).seen.entries.put I.id value)
    (known : I.id ∈ h.startedIds) (regime : I.Regime h) :
    (¬ I.plan.thorough → ∀ other ∈ d.members,
      ((s.after m.id engine rest offered).engine other.id).seen.contains I.id = true →
        other.id = I.origin.id ∨ other.id ∈ f'.reached) ∧
    (I.plan.once → ∀ other ∈ d.members, other.id ∈ f'.reached →
      ((s.after m.id engine rest offered).engine other.id).seen.contains I.id = true) := by
  constructor
  · intro marks other there contains
    rw [reached]
    by_cases same : other.id = m.id
    · exact .inr (.inr same)
    · rw [Scene.engine_after_of_ne same] at contains
      exact (tracks.seen marks other there contains).imp_right .inl
  · intro once other there hit
    by_cases same : other.id = m.id
    · obtain ⟨value, stored⟩ := stored (I.settled once)
      rw [same, Scene.engine_after_self]
      exact SeenCache.contains_of_put stored (ledger.seen m mem) known (regime.room once m mem)
    · rw [Scene.engine_after_of_ne same]
      exact tracks.remembered once other there (((reached _).1 hit).resolve_right same)

/-- A peer that heard the question before ignores it. -/
theorem Tracks.ignore (tracks : I.Tracks h s f) (ledger : d.Ledger h s) {m : Member}
    (mem : m ∈ d.members) {v : Visit} {asked : Multiset Visit} {rest answers : Multiset Packet}
    {engine : Engine} (taken : f.asked = v ::ₘ asked) (arrived : v.peer = m.id)
    (returning : answers.map (·.message) = f.back.map I.answer)
    (along : ∀ k ∈ answers, k.far ∈ k.message.route) (known : I.id ∈ h.startedIds)
    (regime : I.Regime h)
    (stored : ¬ I.plan.thorough → ∃ value, engine.seen.entries =
      (s.engine m.id).seen.entries.put I.id value)
    (marks : ¬ I.plan.thorough) (contains : (s.engine m.id).seen.contains I.id = true)
    (offered : deed.offered = []) (quiet : deed.event = none)
    (flight : (s.after m.id engine rest deed.offered).about I.id = asked.map I.asking + answers) :
    ∃ f', I.Tracks (h ++ [deed]) (s.after m.id engine rest deed.offered) f' := by
  have allowed := (Flood.Orderly.ofReaches tracks.reaches).allows (v := v) (by simp [taken])
  have reached : m.id ∈ f.reached := by
    refine (tracks.seen marks m mem contains).resolve_left fun own => ?_
    rw [← arrived, ← I.begins] at own
    exact Visit.peer_ne_of_trail allowed.trail own
  obtain ⟨seen, remembered⟩ := tracks.memory ledger mem rest deed.offered { f with asked }
    (fun q => ⟨.inl, fun either => either.elim id fun same => same ▸ reached⟩) stored known regime
  refine ⟨{ f with asked }, tracks.reaches.step (.ignore taken marks (arrived ▸ reached)),
    ⟨answers, flight, returning, along⟩, seen, remembered, ?_, ?_⟩
  · rw [History.accepted_of_untold fun _ => by simp [quiet], tracks.accepted]
  · intro other
    rw [History.replies_append, History.replies_singleton, offered, List.map_nil, List.filter_nil,
      ite_self, List.append_nil, tracks.replied]

/-- A peer hears the question: it asks others in turn, and it may answer. -/
theorem Tracks.hear (tracks : I.Tracks h s f) (ledger : d.Ledger h s) {m : Member}
    (mem : m ∈ d.members) {v : Visit} {asked : Multiset Visit} {rest answers : Multiset Packet}
    {engine : Engine} (taken : f.asked = v ::ₘ asked) (arrived : v.peer = m.id)
    (returning : answers.map (·.message) = f.back.map I.answer)
    (along : ∀ k ∈ answers, k.far ∈ k.message.route) (known : I.id ∈ h.startedIds)
    (regime : I.Regime h)
    (stored : ¬ I.plan.thorough → ∃ value, engine.seen.entries =
      (s.engine m.id).seen.entries.put I.id value)
    (fresh : I.plan.once → v.peer ∉ f.reached) (peer : deed.peer = m.id)
    (received : deed.received? = some (I.asking v).message)
    (offers : packets deed.offered = I.offers v) (quiet : deed.event = none)
    (flight : (s.after m.id engine rest deed.offered).about I.id =
      asked.map I.asking + answers + I.offers v) :
    ∃ f', I.Tracks (h ++ [deed]) (s.after m.id engine rest deed.offered) f' := by
  let f' : Flood := ⟨asked + I.plan.children v.stop, v ::ₘ f.heard,
    if I.plan.answers v then v ::ₘ f.back else f.back, f.home⟩
  have reached : ∀ q, q ∈ f'.reached ↔ q ∈ f.reached ∨ q = m.id := by
    intro q
    simp only [f', Flood.reached, Multiset.map_cons, Multiset.mem_cons, arrived]
    exact or_comm
  obtain ⟨seen, remembered⟩ := tracks.memory ledger mem rest deed.offered f' reached stored known
    regime
  refine ⟨f', tracks.reaches.step (.hear taken fresh),
    ⟨answers + if I.plan.answers v then {I.answering v} else 0, ?_, ?_, ?_⟩, seen, remembered,
    ?_, ?_⟩
  · rw [flight, Survey.offers, Multiset.map_add]
    abel
  · simp only [f', Multiset.map_add, returning]
    split
    · rw [Multiset.map_singleton, Multiset.map_cons, add_comm, Multiset.singleton_add]
      rfl
    · rw [Multiset.map_zero, add_zero]
  · intro k there
    rcases Multiset.mem_add.1 there with before | new
    · exact along k before
    · split at new
      · cases Multiset.mem_singleton.1 new
        simp [Survey.answering, Survey.answer, Stop.path]
      · cases Multiset.notMem_zero k new
  · rw [History.accepted_of_untold fun _ => by simp [quiet], tracks.accepted]
  · intro p
    rw [History.replies_append, ← Multiset.coe_add, tracks.replied,
      replies_of_offers I (peer.trans arrived.symm) received offers, Multiset.filter_cons]
    split
    · rw [Multiset.map_add, Multiset.map_singleton, add_comm]
    · rw [zero_add, add_zero]

/-- A peer that is asked hears the question or ignores it. -/
theorem Tracks.visit (tracks : I.Tracks h s f) (ledger : d.Ledger h s) {m : Member}
    (mem : m ∈ d.members) {v : Visit} {asked : Multiset Visit} {rest answers : Multiset Packet}
    (taken : f.asked = v ::ₘ asked) (arrived : v.peer = m.id)
    (about : rest.filter (·.message.id = I.id) = asked.map I.asking + answers)
    (returning : answers.map (·.message) = f.back.map I.answer)
    (along : ∀ k ∈ answers, k.far ∈ k.message.route) (known : I.id ∈ h.startedIds)
    (regime : I.Regime (h ++ [deed])) {step : TrustMesh.Step Outcome}
    (call : (s.engine m.id).handle (d.surroundings m) (some v.before.peer)
      (I.asking v).message = step)
    (peer : deed.peer = m.id) (received : deed.received? = some (I.asking v).message)
    (offered : deed.offered = step.offered) (event : deed.event = step.result.event?) :
    ∃ f', I.Tracks (h ++ [deed]) (s.after m.id step.engine rest step.offered) f' := by
  have allowed := (Flood.Orderly.ofReaches tracks.reaches).allows (v := v) (by simp [taken])
  have serves := ledger.serves mem
  have quiet : deed.event = none := by
    rw [event, ← call]
    exact I.quiet
  have stored : ¬ I.plan.thorough → ∃ value, step.engine.seen.entries =
      (s.engine m.id).seen.entries.put I.id value := by
    intro marks
    rw [← call]
    exact I.remembers mem serves arrived allowed marks
  have mine : ∀ o ∈ deed.offered, o.message.id = I.id := by
    intro o offer
    rw [offered, ← call] at offer
    exact (Engine.handle_onward offer).id
  have flight : (s.after m.id step.engine rest deed.offered).about I.id =
      asked.map I.asking + answers + packets deed.offered := by
    rw [Scene.about_after_of_own mine (regime.legible.read mine), about]
  rw [← offered]
  by_cases ignoring : ¬ I.plan.thorough ∧ (s.engine m.id).seen.contains I.id = true
  · obtain ⟨marks, contains⟩ := ignoring
    have nothing : deed.offered = [] := by
      rw [offered, ← call]
      exact I.ignores mem serves arrived allowed marks contains
    rw [nothing, packets_nil, add_zero, ← nothing] at flight
    exact tracks.ignore ledger mem taken arrived returning along known regime.earlier stored marks
      contains nothing quiet flight
  · have unseen : ¬ I.plan.thorough → (s.engine m.id).seen.contains I.id = false := fun marks =>
      Bool.eq_false_iff.2 fun contains => ignoring ⟨marks, contains⟩
    have offers : packets deed.offered = I.offers v := by
      rw [offered, ← call]
      exact I.hears mem serves arrived allowed unseen
    have fresh : I.plan.once → v.peer ∉ f.reached := fun once reached =>
      ignoring ⟨I.settled once, tracks.remembered once m mem (arrived ▸ reached)⟩
    rw [offers] at flight
    exact tracks.hear ledger mem taken arrived returning along known regime.earlier stored fresh
      peer received offers quiet flight

/-- A deed that leaves the memory of a peer alone leaves alone what peers remember. -/
theorem Tracks.kept (tracks : I.Tracks h s f) {m : Member} {engine : Engine}
    (rest : Multiset Packet) (offered : List Dispatch)
    (same : engine.seen = (s.engine m.id).seen) :
    (¬ I.plan.thorough → ∀ other ∈ d.members,
      ((s.after m.id engine rest offered).engine other.id).seen.contains I.id = true →
        other.id = I.origin.id ∨ other.id ∈ f.reached) ∧
    (I.plan.once → ∀ other ∈ d.members, other.id ∈ f.reached →
      ((s.after m.id engine rest offered).engine other.id).seen.contains I.id = true) := by
  have kept : ∀ p, ((s.after m.id engine rest offered).engine p).seen = (s.engine p).seen := by
    intro p
    by_cases here : p = m.id
    · rw [here, Scene.engine_after_self, same]
    · rw [Scene.engine_after_of_ne here]
  simp only [kept]
  exact ⟨tracks.seen, tracks.remembered⟩

/-- A peer that received an answer gives none of its own. -/
theorem replies_of_answer (I : Inquiry d) {v : Visit} (received : deed.received? = some (I.answer v))
    (p : PeerId) : History.replies [deed] p I.id = [] := by
  rw [History.replies_singleton, if_neg (by simp [received, Survey.answer, I.replies])]

/-- The origin takes an answer in. -/
theorem Tracks.deliver (tracks : I.Tracks h s f) {v : Visit} {near : PeerId} {back : Multiset Visit}
    {rest answers : Multiset Packet} (taken : f.back = v ::ₘ back)
    (trail : d.Trail I.origin.id v.before.path)
    (about : rest.filter (·.message.id = I.id) = f.asked.map I.asking + answers)
    (returning : answers.map (·.message) = back.map I.answer)
    (along : ∀ k ∈ answers, k.far ∈ k.message.route) {step : TrustMesh.Step Outcome}
    (serves : (s.engine I.origin.id).Serves I.origin)
    (call : (s.engine I.origin.id).handle (d.surroundings I.origin) (some near) (I.answer v) = step)
    (peer : deed.peer = I.origin.id) (received : deed.received? = some (I.answer v))
    (event : deed.event = step.result.event?) :
    ∃ f', I.Tracks (h ++ [deed]) (s.after I.origin.id step.engine rest step.offered) f' := by
  obtain ⟨onward, path⟩ := List.head?_eq_some_iff.1 trail.begins
  have deliver : ReturnHop.ofRoute v.before.path (s.engine I.origin.id).identity
      (d.surroundings I.origin).directory = .deliver := by
    rw [path]
    exact ReturnHop.ofRoute_of_origin (serves.identity ▸ (contains_id_iff I.member I.member).2 rfl)
  obtain ⟨nothing, same, tale, told⟩ : step.offered = [] ∧
      step.engine.seen = (s.engine I.origin.id).seen ∧
      ∃ event, step.result.event? = some event := by
    rw [← call]
    exact Engine.handle_of_deliver (I.replies v) deliver
  have sorted : I.sort tale = true := I.tells (call ▸ told)
  obtain ⟨seen, remembered⟩ := tracks.kept rest step.offered same
  refine ⟨{ f with back, home := v ::ₘ f.home }, tracks.reaches.step (.deliver taken),
    ⟨answers, ?_, returning, along⟩, seen, remembered, ?_, ?_⟩
  · rw [nothing, Scene.about_after_of_own (by simp) (by simp), packets_nil, add_zero, about]
  · have taking : deed.peer = I.origin.id ∧ deed.event.any I.sort = true :=
      ⟨peer, by rw [event, told]; exact sorted⟩
    rw [History.accepted_append, History.accepted_singleton, if_pos taking, received,
      ← Multiset.coe_add, tracks.accepted, Multiset.map_cons, add_comm]
    rfl
  · intro p
    rw [History.replies_append, I.replies_of_answer received, List.append_nil, tracks.replied]

/-- Any other peer passes an answer on to an earlier peer of the route. -/
theorem Tracks.forward (tracks : I.Tracks h s f) {m : Member} (mem : m ∈ d.members) {v : Visit}
    {near : PeerId} {back : Multiset Visit} {rest answers : Multiset Packet}
    (taken : f.back = v ::ₘ back) (trail : d.Trail I.origin.id v.before.path)
    (there : m.id ∈ v.before.path) (away : m.id ≠ I.origin.id)
    (about : rest.filter (·.message.id = I.id) = f.asked.map I.asking + answers)
    (returning : answers.map (·.message) = back.map I.answer)
    (along : ∀ k ∈ answers, k.far ∈ k.message.route) {step : TrustMesh.Step Outcome}
    (serves : (s.engine m.id).Serves m)
    (call : (s.engine m.id).handle (d.surroundings m) (some near) (I.answer v) = step)
    (regime : I.Regime (h ++ [deed])) (received : deed.received? = some (I.answer v))
    (offered : deed.offered = step.offered) (event : deed.event = step.result.event?) :
    ∃ f', I.Tracks (h ++ [deed]) (s.after m.id step.engine rest step.offered) f' := by
  obtain ⟨hop, passed, forward⟩ := exists_returnHop I.member mem trail there away
  rw [← serves.identity] at forward
  obtain ⟨sent, same, quiet⟩ : step.offered = [⟨⟨m.id, hop⟩, I.answer v⟩] ∧
      step.engine.seen = (s.engine m.id).seen ∧ step.result.event? = none := by
    rw [← call]
    exact Engine.handle_of_forward (I.replies v) forward
  obtain ⟨seen, remembered⟩ := tracks.kept rest step.offered same
  refine ⟨f, tracks.reaches, ⟨⟨m.id, hop, I.answer v⟩ ::ₘ answers, ?_, ?_, ?_⟩, seen, remembered,
    ?_, ?_⟩
  · have mine : ∀ o ∈ deed.offered, o.message.id = I.id := by
      rw [offered, sent]
      intro o offer
      cases List.mem_singleton.1 offer
      rfl
    have read := regime.legible.read mine
    rw [offered] at mine read
    rw [Scene.about_after_of_own mine read, about, sent, add_assoc, add_comm answers]
    rfl
  · rw [Multiset.map_cons, returning, taken, Multiset.map_cons]
  · intro k mem
    rcases Multiset.mem_cons.1 mem with rfl | mem
    · exact passed
    · exact along k mem
  · rw [History.accepted_of_untold fun _ => by simp [event, quiet], tracks.accepted]
  · intro p
    rw [History.replies_append, I.replies_of_answer received, List.append_nil, tracks.replied]

/-- An answer that was not taken in yet answers a visit that goes on a simple path. -/
theorem Tracks.trail (tracks : I.Tracks h s f) {v : Visit} (gives : v ∈ f.back) :
    d.Trail I.origin.id v.before.path := by
  have orderly := Flood.Orderly.ofReaches tracks.reaches
  have given : v ∈ f.heard.filter (I.plan.answers · = true) := by
    rw [orderly.answered]
    exact Multiset.mem_add.2 (.inl gives)
  have heard := (Multiset.mem_filter.1 given).1
  rw [← I.begins]
  exact (trail_concat_iff.1 (orderly.allows v (Multiset.mem_add.2 (.inr heard))).trail).1

/-- When an inquiry is started, a flood begins. -/
theorem Tracks.begin (ledger : d.Ledger h s) (advance : d.Advance s deed next)
    (regime : I.Regime (h ++ [deed])) (own : deed.peer = I.origin.id)
    (started : deed.started? = some (I.id, I.exchange)) :
    I.Tracks (h ++ [deed]) next I.plan.opening := by
  have unknown := History.unknown_of_nodup regime.distinct started
  have unseen := ledger.contains_eq_false unknown
  have untold := ledger.accepted_eq_nil unknown I.own I.origin.id
  have ungiven := ledger.replies_eq_nil unknown
  obtain ⟨ticket, step, call, rfl, rfl⟩ := advance.call_of_started I.member own started
  have asked : packets step.offered = (I.plan.children I.plan.root).map I.asking := by
    rw [← call]
    exact I.opens (ledger.serves I.member)
  refine ⟨.opening, ⟨0, ?_, rfl, fun k mem => (Multiset.notMem_zero k mem).elim⟩, ?_, ?_, ?_, ?_⟩
  · have mine : ∀ o ∈ step.offered, o.message.id = I.id := by
      intro o offer
      rw [← call] at offer
      exact (Engine.start_offers offer).1
    rw [Scene.about_after_of_own mine (regime.legible.read mine), ← Scene.about,
      ledger.about_eq_zero unknown, asked, zero_add, add_zero]
    rfl
  · intro _ other known contains
    by_cases here : other.id = I.origin.id
    · exact .inl here
    · rw [Scene.engine_after_of_ne here, unseen other known] at contains
      cases contains
  · intro _ other _ reached
    cases Multiset.notMem_zero _ reached
  · rw [History.accepted_of_untold fun _ => by simp, untold]
    rfl
  · intro peer
    have requests : ((step.offered.map (·.message)).filter fun m =>
        m.id = I.id ∧ m.body.isAnswer) = [] := by
      refine List.filter_eq_nil_iff.2 fun message mem => ?_
      obtain ⟨o, offer, rfl⟩ := List.mem_map.1 mem
      have there : o.packet ∈ packets step.offered := mem_packets.2 ⟨o, offer, rfl⟩
      rw [asked] at there
      obtain ⟨v, -, same⟩ := Multiset.mem_map.1 there
      have body : o.message = (I.asking v).message := congrArg Packet.message same.symm
      simp [body, Survey.asking, I.asks]
    rw [History.replies_append, ungiven, History.replies_singleton, requests, ite_self]
    rfl

/-- Every deed after its start keeps the account of an inquiry. -/
theorem Tracks.advance (tracks : I.Tracks h s f) (ledger : d.Ledger h s)
    (advance : d.Advance s deed next) (regime : I.Regime (h ++ [deed]))
    (started : h.Started I.origin.id I.id I.exchange) :
    ∃ f', I.Tracks (h ++ [deed]) next f' := by
  cases advance with
  | @start m mem ticket id exchange step call =>
    have known :
        id ∈ (h ++ [(⟨m.id, .start ticket exchange, id, step.offered, none⟩ : Deed)]).startedIds := by
      simp [History.startedIds, Deed.started?]
    have differ : I.id ≠ id := by
      rintro rfl
      exact History.unknown_of_nodup regime.distinct rfl started.mem
    subst call
    exact ⟨f, tracks.other ledger mem Engine.start_keeps differ known regime rfl
      (fun o offer => (Engine.start_offers offer).1) (by simp)⟩
  | @handle m mem k rest taken arrived id frame read step call =>
    have there : k ∈ s.flight := taken ▸ Multiset.mem_cons_self ..
    have about : s.about I.id = (if k.message.id = I.id then {k} else 0) +
        rest.filter (·.message.id = I.id) := by
      rw [Scene.about, taken, Multiset.filter_cons]
    by_cases same : k.message.id = I.id
    · obtain ⟨answers, flight, returning, along⟩ := tracks.flight
      rw [if_pos same] at about
      rw [about, Multiset.singleton_add] at flight
      rcases Multiset.mem_add.1 (flight ▸ Multiset.mem_cons_self k _) with request | answer
      · obtain ⟨v, asks, rfl⟩ := Multiset.mem_map.1 request
        obtain ⟨asked, took⟩ := Multiset.exists_cons_of_mem asks
        rw [took, Multiset.map_cons, Multiset.cons_add, Multiset.cons_inj_right] at flight
        exact tracks.visit (h := h) ledger mem took arrived flight returning along started.mem
          regime call rfl (by simp [Deed.received?, read, Except.toOption]) rfl rfl
      · obtain ⟨others, took⟩ := Multiset.exists_cons_of_mem answer
        rw [took, Multiset.add_cons, Multiset.cons_inj_right] at flight
        rw [took, Multiset.map_cons] at returning
        obtain ⟨v, gives, answered⟩ :=
          Multiset.mem_map.1 (returning ▸ Multiset.mem_cons_self k.message _)
        obtain ⟨back, took'⟩ := Multiset.exists_cons_of_mem gives
        rw [took', Multiset.map_cons, answered, Multiset.cons_inj_right] at returning
        have passed : m.id ∈ v.before.path := by
          have there := along k answer
          rwa [arrived, ← answered] at there
        have trail := tracks.trail (took' ▸ Multiset.mem_cons_self ..)
        have others : ∀ k ∈ others, k.far ∈ k.message.route := fun k mem =>
          along k (took ▸ Multiset.mem_cons_of_mem mem)
        have received : Deed.received? ⟨m.id, .deliver (some k.near) frame, id, step.offered,
            step.result.event?⟩ = some (I.answer v) := by
          simp [Deed.received?, read, Except.toOption, answered]
        by_cases home : m.id = I.origin.id
        · cases eq_of_id_eq mem I.member home
          exact tracks.deliver took' trail flight returning others (ledger.serves mem)
            (answered ▸ call) rfl received rfl
        · exact tracks.forward mem took' trail passed home flight returning others
            (ledger.serves mem) (answered ▸ call) regime received rfl rfl
    · rw [if_neg same, zero_add] at about
      obtain ⟨peer, exchange, began, -⟩ := ledger.exchanges k there
      subst call
      exact ⟨f, tracks.other ledger mem Engine.handle_keeps (Ne.symm same) (began.mono _).mem regime
        about.symm (fun o offer => (Engine.handle_onward offer).id)
        fun event found => Engine.handle_event found⟩
  | idle idle => exact ⟨f, tracks.idle idle⟩

/-- A flood accounts for an inquiry in every scene after its start. -/
theorem exists_tracks (reaches : d.Reaches h s) (regime : I.Regime h)
    (started : h.Started I.origin.id I.id I.exchange) : ∃ f, I.Tracks h s f := by
  refine reaches.sinceStart I.Regime (fun h s => ∃ f, I.Tracks h s f)
    Regime.earlier ?_ ?_ regime started
  · intro h s deed next reaches advance regime own started
    exact ⟨_, .begin reaches.ledger advance regime own started⟩
  · rintro h s deed next reaches advance regime started ⟨f, tracks⟩
    exact tracks.advance reaches.ledger advance regime started

/-- A flood that has come to its end accounts for all answers of an inquiry. -/
structure Settles (I : Inquiry d) (h : History) (f : Flood) : Prop where
  orderly : f.Orderly I.plan
  asked : f.asked = 0
  accepted : (h.accepted I.origin.id I.sort : Multiset Message) =
    (f.heard.filter (I.plan.answers · = true)).map I.answer
  replied : ∀ peer, (h.replies peer I.id : Multiset Message) =
    (f.heard.filter fun v => v.peer = peer ∧ I.plan.answers v = true).map I.answer
  emitted : (h.emitted I.origin.id).countP I.sort =
    (f.heard.filter (I.plan.answers · = true)).card

/-- When no message is in flight, all answers of an inquiry have come home. -/
theorem exists_settles {ids : Nat → MessageId} {n : Network} (runs : d.Runs ids h n)
    (silent : n.Silent) (regime : I.Regime h)
    (started : h.Started I.origin.id I.id I.exchange) : ∃ f, I.Settles h f := by
  obtain ⟨s, reaches, reflects⟩ := runs.reaches
  obtain ⟨f, tracks⟩ := exists_tracks reaches regime started
  obtain ⟨answers, flight, returning, -⟩ := tracks.flight
  have none : s.about I.id = 0 := by
    rw [Scene.about, reflects.flight_eq_zero silent, Multiset.filter_zero]
  rw [none] at flight
  have requests : f.asked.map I.asking = 0 := Multiset.le_zero.1 (flight ▸ Multiset.le_add_right ..)
  have nothing : answers = 0 := Multiset.le_zero.1 (flight ▸ Multiset.le_add_left ..)
  have asked : f.asked = 0 := Multiset.map_eq_zero.1 requests
  have back : f.back = 0 := by
    rw [nothing, Multiset.map_zero] at returning
    exact Multiset.map_eq_zero.1 returning.symm
  have orderly := Flood.Orderly.ofReaches tracks.reaches
  have home : f.home = f.heard.filter (I.plan.answers · = true) := by
    rw [orderly.answered, back, zero_add]
  have accepted := tracks.accepted
  rw [home] at accepted
  refine ⟨f, orderly, asked, accepted, tracks.replied, ?_⟩
  rw [← reaches.length_accepted, ← Multiset.coe_card, accepted, Multiset.card_map]

end Inquiry

end TrustMesh
