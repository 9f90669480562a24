import TrustMesh.Proofs.Mesh.Ledger
import TrustMesh.Proofs.Mesh.Ring
import TrustMesh.Proofs.Relay.Passing
import TrustMesh.Proofs.Relay.ReturnPath

/-!
# The ways of messages in flight

`Deployment.Course` says how a message in flight came to where it is. Its route is a path of
links. A request or a gossip is one link away from the last peer of its route; an answer is
on its way to a peer of its route. The routes of requests and answers repeat no peer, and a
gossip does not turn back. `Reaches.course` states this of every message in flight, whatever
was started, under whatever identifiers, and whatever nodes have forgotten.
-/

namespace TrustMesh

open Std

/-- The engine of a member puts the member on routes. -/
theorem Engine.Serves.primary {e : Engine} {m : Member} (serves : e.Serves m) : e.primary = m.id := by
  rw [Engine.primary, serves.identity]
  rfl

/-- Two packets that agree in all that a frame keeps: their ends, and the identifier, the route and
the kind of their messages. -/
structure Packet.Resembles (k l : Packet) : Prop where
  near : k.near = l.near
  far : k.far = l.far
  id : k.message.id = l.message.id
  route : k.message.route = l.message.route
  kind : k.message.body.kind = l.message.body.kind

/-- What is read from a frame resembles what was written. -/
theorem Dispatch.resembles_of_arrival {o : Dispatch} {k : Packet} (arrives : o.arrival? = some k) :
    k.Resembles o.packet := by
  obtain ⟨link, read⟩ := o.read_of_arrival arrives
  obtain ⟨id, route, kind⟩ := Message.kept_of_decode read
  exact ⟨(congrArg Link.near link).symm, (congrArg Link.far link).symm, id, route, kind⟩

namespace Deployment

variable {d : Deployment} {h : History} {s next : Scene} {deed : Deed} {m : Member} {k : Packet}

/-- How a message in flight came to where it is. -/
structure Course (d : Deployment) (k : Packet) : Prop where
  walked : k.message.route.IsChain d.Linked
  known : ∀ q ∈ k.message.route, ∃ m ∈ d.members, m.id = q
  simple : k.message.body.kind ≠ .gossip → k.message.route.Nodup
  last : k.message.body.kind.isAnswer = false → k.message.route.getLast? = some k.near
  ahead : k.message.body.kind.isAnswer = true → k.far ∈ k.message.route
  straight : k.message.body.kind = .gossip → Straight (k.message.route ++ [k.far])

/-- A request has a course if its route is a simple path to the peer that sends it. -/
theorem Course.ofRequest (asks : k.message.body.kind.isRequest = true)
    (walked : k.message.route.IsChain d.Linked)
    (known : ∀ q ∈ k.message.route, ∃ m ∈ d.members, m.id = q) (simple : k.message.route.Nodup)
    (last : k.message.route.getLast? = some k.near) : d.Course k where
  walked := walked
  known := known
  simple _ := simple
  last _ := last
  ahead answers := by
    rw [MessageKind.isAnswer_of_isRequest asks] at answers
    cases answers
  straight gossip := absurd gossip (MessageKind.ne_gossip_of_isRequest asks)

/-- An answer has a course if it goes to a peer of its route, which is a simple path. -/
theorem Course.ofAnswer (answers : k.message.body.kind.isAnswer = true)
    (walked : k.message.route.IsChain d.Linked)
    (known : ∀ q ∈ k.message.route, ∃ m ∈ d.members, m.id = q) (simple : k.message.route.Nodup)
    (ahead : k.far ∈ k.message.route) : d.Course k where
  walked := walked
  known := known
  simple _ := simple
  last asks := by
    rw [answers] at asks
    cases asks
  ahead _ := ahead
  straight gossip := absurd gossip (MessageKind.ne_gossip_of_isAnswer answers)

theorem Course.congr {l : Packet} (course : d.Course l) (same : k.Resembles l) : d.Course k := by
  obtain ⟨near, far, -, route, kind⟩ := same
  constructor
  · rw [route]
    exact course.walked
  · rw [route]
    exact course.known
  · rw [route, kind]
    exact course.simple
  · rw [route, kind, near]
    exact course.last
  · rw [route, kind, far]
    exact course.ahead
  · rw [route, kind, far]
    exact course.straight

/-- Away from its origin, an answer goes back to a peer that comes earlier on its route. -/
theorem exists_earlier_returnHop {path : List PeerId} (mem : m ∈ d.members)
    (walked : path.IsChain d.Linked) (simple : path.Nodup)
    (known : ∀ q ∈ path, ∃ n ∈ d.members, n.id = q) (there : m.id ∈ path)
    (away : path.head? ≠ some m.id) :
    ∃ front rest, path = front ++ m.id :: rest ∧ ∃ hop ∈ front,
      ReturnHop.ofRoute path m.identity (d.directory m.id) = .forward ⟨m.id, hop⟩ := by
  obtain ⟨before, rest, rfl⟩ := List.append_of_mem there
  refine ⟨before, rest, rfl, ?_⟩
  obtain ⟨front, previous, rfl⟩ : ∃ front previous, before = front ++ [previous] := by
    rcases List.eq_nil_or_concat' before with rfl | ⟨front, previous, rfl⟩
    · exact (away rfl).elim
    · exact ⟨front, previous, rfl⟩
  have link : d.Linked previous m.id :=
    (List.isChain_append.1 walked).2.2 previous (by simp) m.id rfl
  have foreign : ∀ hop ∈ front ++ [previous], m.identity.contains hop = false := by
    intro hop passed
    obtain ⟨n, own, rfl⟩ := known hop (List.mem_append_left _ passed)
    rw [Bool.eq_false_iff, ne_eq, contains_id_iff mem own]
    exact (List.nodup_append.1 simple).2.2 _ passed m.id (by simp)
  have own : m.identity.contains m.id = true := (contains_id_iff mem mem).2 rfl
  obtain ⟨hop, passed, found, resolved, forward⟩ :=
    ReturnHop.ofRoute_of_later own foreign
      (show ((d.directory m.id).resolve previous).isSome by rw [resolve_of_linked link.symm]; rfl)
  obtain ⟨rfl, -⟩ := resolve_eq_some resolved
  exact ⟨hop, passed, forward⟩

/-- The peer that an answer goes back to comes before the peer that sends it there. -/
theorem Course.returns (course : d.Course k) (mem : m ∈ d.members) (arrived : k.far = m.id)
    (answers : k.message.body.kind.isAnswer = true) {link : Link}
    (forward : ReturnHop.ofRoute k.message.route m.identity (d.directory m.id) = .forward link) :
    ∃ front rest, k.message.route = front ++ m.id :: rest ∧ link.near = m.id ∧
      link.far ∈ front := by
  have simple := course.simple fun gossip => by rw [gossip] at answers; cases answers
  have here : m.id ∈ k.message.route := arrived ▸ course.ahead answers
  have away : k.message.route.head? ≠ some m.id := by
    intro first
    obtain ⟨rest, whole⟩ := List.head?_eq_some_iff.1 first
    rw [whole, ReturnHop.ofRoute_of_origin ((contains_id_iff mem mem).2 rfl)] at forward
    cases forward
  obtain ⟨front, rest, whole, hop, passed, forward'⟩ :=
    exists_earlier_returnHop mem course.walked simple course.known here away
  rw [forward] at forward'
  cases forward'
  exact ⟨front, rest, whole, rfl, passed⟩

/-- A peer that a route has not passed is not on it. -/
theorem not_mem_route_of_unpassed {e : Engine} (mem : m ∈ d.members) (serves : e.Serves m)
    {message : Message} (unpassed : e.Unpassed message) : m.id ∉ message.route := by
  intro passed
  have foreign := List.any_eq_false.1 unpassed.foreign m.id passed
  rw [serves.identity] at foreign
  exact foreign ((contains_id_iff mem mem).2 rfl)

/-- A route goes on over the link that its message came by. -/
theorem Course.walked_concat (course : d.Course k) (arrived : k.far = m.id)
    (linked : d.Linked k.near k.far) (asks : k.message.body.kind.isAnswer = false) :
    (k.message.route ++ [m.id]).IsChain d.Linked := by
  refine List.isChain_append.2 ⟨course.walked, .singleton _, ?_⟩
  intro x last y first
  rw [course.last asks] at last
  cases last
  cases first
  exact arrived ▸ linked

/-- Every peer of a route that goes on is a member. -/
theorem Course.known_concat (course : d.Course k) (mem : m ∈ d.members) :
    ∀ q ∈ k.message.route ++ [m.id], ∃ n ∈ d.members, n.id = q := by
  intro q there
  rcases List.mem_append.1 there with before | last
  · exact course.known q before
  · exact ⟨m, mem, (List.mem_singleton.1 last).symm⟩

/-- A message that goes on from a peer reaches the next one by that peer. -/
theorem last_concat (route : List PeerId) {link : Link} {peer : PeerId}
    (resolved : (d.surroundings m).directory.resolve peer = some link) :
    (route ++ [m.id]).getLast? = some link.near := by
  obtain ⟨rfl, -⟩ := resolve_eq_some resolved
  rw [List.getLast?_concat]

/-- A peer that is not a member is not at the far end of a link that leads back to the member. -/
theorem far_ne_near {e : Engine} (mem : m ∈ d.members) (serves : e.Serves m) {link : Link}
    {peer : PeerId} (foreign : e.identity.contains peer = false)
    (resolved : (d.surroundings m).directory.resolve peer = some link) : link.far ≠ link.near := by
  obtain ⟨rfl, -⟩ := resolve_eq_some resolved
  rintro same
  have own : e.identity.contains peer = true := by
    rw [serves.identity]
    exact (contains_id_iff mem mem).2 rfl ▸ congrArg _ same
  rw [own] at foreign
  cases foreign

section Passes

variable (course : d.Course k) (mem : m ∈ d.members) {e : Engine} (serves : e.Serves m)
  (arrived : k.far = m.id) {o : Dispatch}

include course mem serves arrived

/-- A request that goes on has a course. -/
theorem Course.onward (linked : d.Linked k.near k.far) (asks : k.message.body.kind.isRequest = true)
    (unpassed : e.Unpassed k.message) (longer : o.message = k.message.extended e.primary)
    {peer : PeerId} (resolved : (d.surroundings m).directory.resolve peer = some o.link) :
    d.Course o.packet := by
  have route : o.packet.message.route = k.message.route ++ [m.id] := by
    rw [Dispatch.packet, longer, Message.extended, serves.primary]
  refine .ofRequest ?_ ?_ ?_ ?_ ?_
  · rw [Dispatch.packet, longer]
    exact asks
  · rw [route]
    exact course.walked_concat arrived linked (MessageKind.isAnswer_of_isRequest asks)
  · rw [route]
    exact course.known_concat mem
  · rw [route, ← List.concat_eq_append, List.nodup_concat]
    exact ⟨not_mem_route_of_unpassed mem serves unpassed,
      course.simple (MessageKind.ne_gossip_of_isRequest asks)⟩
  · rw [route]
    exact last_concat _ resolved

omit mem serves arrived in
/-- The answer to a request has a course. -/
theorem Course.answer (asks : k.message.body.kind.isRequest = true)
    (replies : o.message.body.kind.isAnswer = true) (route : o.message.route = k.message.route)
    {peer : PeerId} (previous : some k.near = some peer ∨ k.message.previousHop? = some peer)
    (resolved : (d.surroundings m).directory.resolve peer = some o.link) : d.Course o.packet := by
  have last := course.last (MessageKind.isAnswer_of_isRequest asks)
  have same : k.near = peer := by
    rcases previous with sender | previous
    · exact Option.some.inj sender
    · exact Option.some.inj (last.symm.trans previous)
  obtain ⟨link, -⟩ := resolve_eq_some resolved
  have ahead : o.link.far ∈ k.message.route := by
    rw [link, ← same]
    exact List.mem_of_getLast? last
  exact .ofAnswer replies (route ▸ course.walked) (route ▸ course.known)
    (route ▸ course.simple (MessageKind.ne_gossip_of_isRequest asks)) (route ▸ ahead)

/-- An answer that goes back has a course. -/
theorem Course.back (answers : k.message.body.kind.isAnswer = true) (same : o.message = k.message)
    (forward : ReturnHop.ofRoute k.message.route e.identity (d.directory m.id) = .forward o.link) :
    d.Course o.packet := by
  rw [serves.identity] at forward
  obtain ⟨front, rest, whole, -, passed⟩ := course.returns mem arrived answers forward
  have ahead : o.packet.far ∈ k.message.route := whole ▸ List.mem_append_left _ passed
  have same : o.packet.message = k.message := same
  exact .ofAnswer (same ▸ answers) (same ▸ course.walked) (same ▸ course.known)
    (same ▸ course.simple (MessageKind.ne_gossip_of_isAnswer answers)) (same ▸ ahead)

/-- A gossip that goes on has a course. -/
theorem Course.spread (linked : d.Linked k.near k.far) (gossip : k.message.body.kind = .gossip)
    (route : o.message.route = k.message.route ++ [e.primary])
    (copies : o.message.body.kind = .gossip) {peer : PeerId}
    (foreign : e.identity.contains peer = false) (forth : k.near ≠ peer)
    (resolved : (d.surroundings m).directory.resolve peer = some o.link) : d.Course o.packet := by
  have asks : k.message.body.kind.isAnswer = false := by rw [gossip]; rfl
  have route : o.packet.message.route = k.message.route ++ [m.id] := serves.primary ▸ route
  obtain ⟨link, -⟩ := resolve_eq_some resolved
  constructor
  · rw [route]
    exact course.walked_concat arrived linked asks
  · rw [route]
    exact course.known_concat mem
  · exact fun other => absurd copies other
  · rw [route]
    exact fun _ => last_concat _ resolved
  · intro answers
    rw [show o.packet.message.body.kind = _ from copies] at answers
    cases answers
  · intro _
    obtain ⟨before, last⟩ := List.getLast?_eq_some_iff.1 (course.last asks)
    have straight := course.straight gossip
    have away : m.id ≠ o.packet.far := fun same =>
      far_ne_near mem serves foreign resolved (same.symm.trans (congrArg Link.near link).symm)
    have far : o.packet.far = peer := congrArg Link.far link
    rw [last, arrived, List.append_assoc] at straight
    rw [route, last, List.append_assoc, List.append_assoc]
    exact straight.concat away (far ▸ forth)

/-- A message that one in flight leads to has a course of its own. -/
theorem Course.passes (linked : d.Linked k.near k.far)
    (passes : e.Passes (d.surroundings m) (some k.near) k.message o) : d.Course o.packet := by
  cases passes with
  | onward asks unpassed longer known =>
    obtain ⟨peer, resolved⟩ := known
    exact course.onward mem serves arrived linked asks unpassed longer resolved
  | answer asks unpassed replies route known =>
    obtain ⟨peer, previous, resolved⟩ := known
    exact course.answer asks replies route previous resolved
  | back answers same forward => exact course.back mem serves arrived answers same forward
  | spread gossip new copies known =>
    obtain ⟨peer, -, foreign, forth, resolved⟩ := known
    exact course.spread mem serves arrived linked (by rw [gossip]; rfl) (by rw [copies])
      (by rw [copies]; rfl) foreign (fun same => forth (congrArg _ same.symm)) resolved

end Passes

/-- The first messages of an exchange have courses. -/
theorem course_of_start (mem : m ∈ d.members) {e : Engine} (serves : e.Serves m) {id : MessageId}
    {exchange : Exchange} {o : Dispatch}
    (offer : o ∈ (e.start (d.surroundings m) id exchange).offered) : d.Course o.packet := by
  obtain ⟨-, route, -, far, resolved⟩ := Engine.start_offers offer
  obtain ⟨asks, others⟩ := Engine.start_opens offer
  have alone : o.packet.message.route = [m.id] := serves.primary ▸ route
  constructor
  · rw [alone]
    exact .singleton _
  · rw [alone]
    exact fun q there => ⟨m, mem, (List.mem_singleton.1 there).symm⟩
  · rw [alone]
    exact fun _ => List.nodup_singleton _
  · rw [alone]
    exact fun _ => last_concat [] resolved
  · intro answers
    rw [show o.packet.message.body.kind.isAnswer = _ from asks] at answers
    cases answers
  · intro gossip
    obtain ⟨peer, foreign, resolved⟩ := others gossip
    have away := far_ne_near mem serves foreign resolved
    obtain ⟨link, -⟩ := resolve_eq_some resolved
    rw [alone]
    exact straight_pair fun same => away (same.symm.trans (congrArg Link.near link).symm)

/-- Every message in flight has a course. -/
theorem Reaches.course (reaches : d.Reaches h s) : ∀ k ∈ s.flight, d.Course k := by
  refine reaches.flight_induction (fun _ k => d.Course k) id ?_ ?_
  · intro h s m id exchange o k prior mem offer arrives deed _ _
    exact (course_of_start mem (prior.ledger.serves mem) offer).congr
      (Dispatch.resembles_of_arrival arrives)
  · intro h s m k o l prior mem there arrived course offer arrives
    have ledger := prior.ledger
    exact (course.passes mem (ledger.serves mem) arrived (ledger.linked k there)
      (Engine.handle_passes offer)).congr (Dispatch.resembles_of_arrival arrives)

end Deployment

end TrustMesh
