import TrustMesh.Proofs.Graph.Path
import TrustMesh.Proofs.Mesh.Course
import TrustMesh.Proofs.Mesh.Legibility
import TrustMesh.Proofs.Mesh.Reflection
import TrustMesh.Proofs.Relay.Telling

/-!
# Routes that are discovered

A message of a search belongs to a search that the first peer of its route started, and an
answer comes from a member that the search was for and that is one link beyond the end of
the route (`Deployment.Quest`, `Reaches.quest`). With the ways of messages in flight this
makes the route of every event a simple path to the target (`Deployment.discovered_routes`).

Neither needs exchanges to have different identifiers: a search that borrows the identifier
of another exchange is still answered by its own target.
-/

namespace TrustMesh

open Std

/-- A body of a search belongs to that search alone. -/
theorem Exchange.Carries.eq_trace {target : PeerId} {exchange : Exchange} {body : Body}
    (carried : exchange.Carries body) (sought : (Exchange.trace target).Carries body) :
    exchange = .trace target := by
  cases body with
  | traceRequest other =>
    cases exchange with
    | trace found => exact congrArg Exchange.trace (carried.symm.trans sought)
    | _ => exact carried.elim
  | traceResponse other graph =>
    cases exchange with
    | trace found => exact congrArg Exchange.trace (carried.symm.trans sought)
    | _ => exact carried.elim
  | _ => exact sought.elim

namespace Engine

variable {e : Engine} {s : Surroundings} {sender : Option PeerId} {m : Message} {o : Dispatch}
  {target : PeerId} {graph : Graph}

/-- An answer to a search is passed on as it is, or given by a peer that the search is for. -/
theorem answer_of_handle (mem : o ∈ (e.handle s sender m).offered)
    (body : o.message.body = .traceResponse target graph) :
    o.message = m ∨ (m.body = .traceRequest target ∧ e.Unpassed m ∧ o.message.route = m.route ∧
      graph = .single target [] ∧ e.identity.contains target = true) := by
  cases handle_passes mem with
  | onward asks _ longer _ =>
    have request : m.body.kind = .traceResponse := by
      rw [show m.body = o.message.body by rw [longer]; rfl, body]
      rfl
    rw [request] at asks
    cases asks
  | answer asks unpassed _ route _ =>
    have composed := handle_composes mem
    generalize told : o.message.body = reply at composed
    rw [told] at body
    cases composed with
    | same =>
      rw [body] at asks
      cases asks
    | found sought own =>
      cases body
      exact .inr ⟨sought, unpassed, route, rfl, own⟩
    | _ => cases body
  | back _ same _ => exact .inl same
  | spread _ _ copies _ =>
    rw [copies] at body
    cases body

/-- A route is discovered where a search began, from an answer to it. -/
theorem answer_of_routeDiscovered {id : MessageId} {route : List PeerId}
    (told : (e.handle s sender m).result.event? = some (.routeDiscovered id target route graph)) :
    ∃ found, m.body = .traceResponse target found ∧ id = m.id ∧
      ReturnHop.ofRoute m.route e.identity s.directory = .deliver ∧
      route = (m.route ++ [target]).drop 1 ∧
      graph = e.localize (addPath e.settings.linkLabel found (m.route ++ [target])) := by
  obtain ⟨picture, tells⟩ := handle_tells told
  cases tells with
  | found body begins =>
    exact ⟨_, body, rfl, ReturnHop.ofRoute_eq_deliver_iff.2 begins, rfl, rfl⟩

end Engine

namespace Deployment

variable {d : Deployment} {h : History} {s next : Scene} {deed : Deed} {a m t : Member}
  {id : MessageId} {target : PeerId}

/-- What a message of a search says is so: the peer that its route begins with started the search,
and an answer comes from a peer that the search is for, by way of a simple path. -/
structure Quest (d : Deployment) (h : History) (message : Message) : Prop where
  began : ∀ target, (Exchange.trace target).Carries message.body →
    ∃ peer, h.Started peer message.id (.trace target) ∧ message.route.head? = some peer
  found : ∀ target graph, message.body = .traceResponse target graph →
    graph = .single target [] ∧ ∃ t ∈ d.members, t.identity.contains target = true ∧
      (message.route ++ [t.id]).IsChain d.Linked ∧ (message.route ++ [t.id]).Nodup

theorem Quest.mono {message : Message} (quest : d.Quest h message) (k : History) :
    d.Quest (h ++ k) message where
  began target sought :=
    have ⟨peer, began, first⟩ := quest.began target sought
    ⟨peer, began.mono k, first⟩
  found := quest.found

/-- A message that belongs to no search says nothing of one. -/
theorem quest_of_other {message : Message}
    (other : ∀ target, ¬ (Exchange.trace target).Carries message.body) : d.Quest h message where
  began target sought := absurd sought (other target)
  found target _ body := absurd (body ▸ rfl) (other target)

/-- What is read from the frame of a message says what the message said. -/
theorem Quest.read {o : Dispatch} {message : Message} (quest : d.Quest h o.message)
    (read : Message.decode o.frame = .ok message) : d.Quest h message := by
  have same : o.message.body.Lucid → d.Quest h message := fun lucid => by
    rw [lucid.read] at read
    exact Except.ok.inj read ▸ quest
  have kind := (Message.kept_of_decode read).2.2
  -- Only other exchanges may have bodies that are not read as they were.
  cases body : o.message.body with
  | traceRequest target => exact same (body ▸ Body.lucid_traceRequest target)
  | traceResponse target graph =>
    obtain ⟨rfl, -⟩ := quest.found target graph body
    exact same (body ▸ Body.lucid_traceResponse target (Graph.sound_single target []))
  | _ =>
    refine quest_of_other fun target sought => ?_
    have admits := sought.admits
    rw [kind, body] at admits
    exact admits.elim

/-- The first messages of a search belong to it. -/
theorem quest_of_start {e : Engine} {surroundings : Surroundings} (own : e.primary = m.id)
    {exchange : Exchange} (began : h.Started m.id id exchange) {o : Dispatch}
    (offer : o ∈ (e.start surroundings id exchange).offered) : d.Quest h o.message := by
  obtain ⟨same, route, carried, -⟩ := Engine.start_offers offer
  constructor
  · intro target sought
    cases carried.eq_trace sought
    exact ⟨m.id, same ▸ began, by rw [route, own]; rfl⟩
  · intro target graph body
    have asks := (Engine.start_opens offer).1
    rw [body] at asks
    cases asks

/-- A message that one in flight leads to says what is so. -/
theorem Quest.handle {k : Packet} (quest : d.Quest h k.message) (course : d.Course k)
    (linked : d.Linked k.near k.far) (mem : m ∈ d.members) (arrived : k.far = m.id) {e : Engine}
    (serves : e.Serves m) {sender : Option PeerId} {o : Dispatch}
    (offer : o ∈ (e.handle (d.surroundings m) sender k.message).offered) :
    d.Quest h o.message := by
  constructor
  · intro target sought
    have onward := Engine.handle_onward offer
    obtain ⟨exchange, carried⟩ := k.message.body.exists_carries
    cases (onward.carried exchange carried).eq_trace sought
    obtain ⟨peer, began, first⟩ := quest.began target carried
    refine ⟨peer, onward.id ▸ began, ?_⟩
    rcases onward.route with same | longer
    · rw [same, first]
    · rw [longer, List.head?_append, first]
      rfl
  · intro target graph body
    rcases Engine.answer_of_handle offer body with same | ⟨asks, unpassed, route, alone, own⟩
    · rw [same] at body ⊢
      exact quest.found target graph body
    · have request : k.message.body.kind = .traceRequest := by rw [asks]; rfl
      refine ⟨alone, m, mem, serves.identity ▸ own, ?_, ?_⟩
      · rw [route]
        exact course.walked_concat arrived linked (by rw [request]; rfl)
      · rw [route, ← List.concat_eq_append, List.nodup_concat]
        exact ⟨not_mem_route_of_unpassed mem serves unpassed,
          course.simple (by rw [request]; exact nofun)⟩

/-- What messages of searches in flight say is so. -/
theorem Reaches.quest (reaches : d.Reaches h s) : ∀ k ∈ s.flight, d.Quest h k.message := by
  refine reaches.flight_induction (fun h k => d.Quest h k.message) (fun quest => quest.mono _) ?_ ?_
  · intro h s m id exchange o k prior mem offer arrives deed own began
    have primary := (prior.ledger.serves mem).primary
    exact (quest_of_start primary (h.started_concat own began) offer).read
      (o.read_of_arrival arrives).2
  · intro h s m k o l prior mem there arrived quest offer arrives
    have ledger := prior.ledger
    exact (quest.handle (prior.course k there) (ledger.linked k there) mem arrived
      (ledger.serves mem) offer).read (o.read_of_arrival arrives).2

/-! ## The graph of a route -/

/-- An edge along a path of links joins two linked peers of the path. -/
theorem exists_linked_of_mem_along {read : PeerId → PeerId} {label : String} {path : List PeerId}
    (linked : path.IsChain d.Linked) {e : Edge} (there : e ∈ Edge.along label (path.map read)) :
    ∃ x ∈ path, ∃ y ∈ path, d.Linked x y ∧ e = .between (read x) (read y) label := by
  induction path with
  | nil => cases there
  | cons a path ih =>
    cases path with
    | nil => cases there
    | cons b rest =>
      obtain ⟨link, linked⟩ := List.isChain_cons_cons.1 linked
      rcases List.mem_cons.1 there with rfl | later
      · exact ⟨a, by simp, b, by simp, link, rfl⟩
      · obtain ⟨x, first, y, second, joined, same⟩ := ih linked later
        exact ⟨x, List.mem_cons_of_mem _ first, y, List.mem_cons_of_mem _ second, joined, same⟩

/-- The edges along a simple path of links have different identifiers. -/
theorem EdgeIdsDifferAs.nodup_along {read : PeerId → PeerId} (differ : d.EdgeIdsDifferAs read)
    {path : List PeerId} (linked : path.IsChain d.Linked) (simple : path.Nodup) (label : String) :
    ((Edge.along label (path.map read)).map Edge.id).Nodup := by
  induction path with
  | nil => exact List.nodup_nil
  | cons a path ih =>
    cases path with
    | nil => exact List.nodup_nil
    | cons b rest =>
      obtain ⟨link, later⟩ := List.isChain_cons_cons.1 linked
      obtain ⟨away, simple⟩ := List.nodup_cons.1 simple
      refine List.nodup_cons.2 ⟨fun repeated => away ?_, ih later simple⟩
      obtain ⟨e, there, same⟩ := List.mem_map.1 repeated
      obtain ⟨x, first, y, second, joined, rfl⟩ := exists_linked_of_mem_along later there
      rcases differ a b x y link joined same.symm with ⟨rfl, -⟩ | ⟨rfl, -⟩
      · exact first
      · exact second

/-- The graph of a simple path of links shows the path and nothing else to the member where the path
begins. -/
theorem retraces_of_trail (plain : ∀ m ∈ d.members, m.id ≠ .me) (first : a ∈ d.members)
    (differ : d.EdgeIdsDiffer) (differ' : d.EdgeIdsDifferAs a.identity.localize)
    {route : List PeerId} (known : ∀ p ∈ route, ∃ m ∈ d.members, m.id = p)
    (trail : d.Trail a.id (a.id :: route)) (there : target ∈ route) :
    ((Engine.addPath a.settings.linkLabel (.single target []) (a.id :: route)).localized a.identity
      a.settings.selfLabel).Retraces a.settings route := by
  obtain ⟨away, simple⟩ := List.nodup_cons.1 trail.simple
  have own : a.identity.contains a.id = true := (contains_id_iff first first).2 rfl
  have foreign : ∀ p ∈ route, a.identity.contains p = false := by
    intro p passed
    obtain ⟨m, mem, rfl⟩ := known p passed
    rw [Bool.eq_false_iff, ne_eq, contains_id_iff first mem]
    exact fun same => away (same ▸ passed)
  have unread : .me ∉ route := fun passed =>
    have ⟨m, mem, same⟩ := known .me passed
    plain m mem same
  have unchanged : d.EdgeIdsDifferAs fun p => p := differ
  have raw := unchanged.nodup_along trail.linked trail.simple a.settings.linkLabel
  have seen := differ'.nodup_along trail.linked trail.simple a.settings.linkLabel
  rw [List.map_id'] at raw
  rw [Graph.map_localize own foreign] at seen
  exact ⟨Graph.nodes_localized_addPath own foreign unread simple there,
    Graph.edges_localized_addPath own foreign unread simple raw seen⟩

/-- The routes that a node discovers are real. The node started a search for the target under the
identifier of the event, and the route leads from the node over links to the target without passing
a peer twice. The graph of the event shows the route and nothing else. -/
theorem discovered_routes {ids : Nat → MessageId} {n : Network} (runs : d.Runs ids h n)
    (plain : ∀ m ∈ d.members, m.id ≠ .me) (first : a ∈ d.members) (there : t ∈ d.members)
    (differ : d.EdgeIdsDiffer) (differ' : d.EdgeIdsDifferAs a.identity.localize)
    {route : List PeerId} {graph : Graph}
    (told : .routeDiscovered id t.id route graph ∈ h.emitted a.id) :
    h.Started a.id id (.trace t.id) ∧ d.Trail a.id (a.id :: route) ∧
      route.getLast? = some t.id ∧ graph.Retraces a.settings route := by
  obtain ⟨s, reaches, -⟩ := runs.reaches
  obtain ⟨front, rest, before, rfl, earlier, k, flight, arrived, told⟩ :=
    reaches.exists_cause first told
  obtain ⟨found, body, rfl, deliver, rfl, rfl⟩ := Engine.answer_of_routeDiscovered told
  have serves := earlier.ledger.serves first
  have quest := earlier.quest k flight
  obtain ⟨rfl, other, known, named, linked, simple⟩ := quest.found _ _ body
  -- The target was given as an identifier of its own, so it answered itself.
  rw [← (contains_id_iff known there).1 named] at linked simple
  obtain ⟨peer, began, begins⟩ := quest.began t.id (body ▸ rfl)
  have home : peer = a.id := by
    obtain ⟨origin, begins', own⟩ := Engine.origin_of_deliver deliver
    obtain ⟨starter, mem, rfl⟩ := earlier.ledger.starters _ _ _ began
    cases begins.symm.trans begins'
    rw [serves.identity] at own
    exact (contains_id_iff first mem).1 own
  subst home
  obtain ⟨way, whole⟩ := List.head?_eq_some_iff.1 begins
  rw [whole] at linked simple ⊢
  have onward : ∀ p ∈ way ++ [t.id], ∃ m ∈ d.members, m.id = p := by
    intro p passed
    rcases List.mem_append.1 passed with mem | mem
    · exact (earlier.course k flight).known p (whole ▸ List.mem_cons_of_mem _ mem)
    · exact ⟨t, there, (List.mem_singleton.1 mem).symm⟩
  refine ⟨began.mono rest, ⟨rfl, linked, simple⟩, List.getLast?_concat .., ?_⟩
  rw [Engine.localize, serves.identity, serves.settings]
  exact retraces_of_trail plain first differ differ' onward ⟨rfl, linked, simple⟩ (by simp)

/-- One of two linked members discovers the route to the other one. -/
theorem discovered_routes_pair :
    ∃ graph, .routeDiscovered .zero ⟨"B"⟩ [⟨"B"⟩] graph ∈
        ((pair false).trial (fun _ => .zero) ⟨"A"⟩ (.trace ⟨"B"⟩) 9).1.emitted ⟨"A"⟩ ∧
      graph.Retraces .standard [⟨"B"⟩] := by
  have runs := (pair false).runs_trial (fun _ => .zero) ⟨"A"⟩ (.trace ⟨"B"⟩) 9 (by decide +kernel)
  have told : .routeDiscovered .zero (Member.plain ⟨"B"⟩ false).id [⟨"B"⟩]
      ((Engine.addPath "P2P" (.single ⟨"B"⟩ []) [⟨"A"⟩, ⟨"B"⟩]).localized
        (Member.plain ⟨"A"⟩ false).identity "MySelf") ∈
      ((pair false).trial (fun _ => .zero) ⟨"A"⟩ (.trace ⟨"B"⟩) 9).1.emitted
        (Member.plain ⟨"A"⟩ false).id := by
    decide +kernel
  have plain : ∀ m ∈ (pair false).members, m.id ≠ .me := by decide
  exact ⟨_, told, (discovered_routes runs plain (by simp [pair]) (by simp [pair])
    (edgeIdsDifferAs_pair false fun p => p) (edgeIdsDifferAs_pair false _) told).2.2.2⟩

end Deployment

end TrustMesh
