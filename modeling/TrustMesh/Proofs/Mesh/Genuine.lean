import TrustMesh.Proofs.Mesh.ComplianceReach
import TrustMesh.Proofs.Mesh.Discovery
import TrustMesh.Proofs.Message.Relaying
import TrustMesh.Proofs.Relay.Telling

/-!
# Graphs that tell the truth

A graph is genuine if it shows members only and joins none but linked peers
(`Deployment.Genuine`). The graphs of messages in flight are genuine, and so are the graphs
of queries and the pictures that events are about, whatever exchanges go on at the same time
and whatever the engines forget (`Deployment.no_phantoms`). A graph of a compliance query
carries no label but the roles that its framework grants.

No memory has to have room and no message has to be read as it was. That identifiers of
exchanges differ is needed for the labels, and that searches name members by the
identifiers that they use on routes is needed for the graphs of searches.
-/

namespace TrustMesh

open Std

/-- An event that a peer would tell if it did the first command of its inbox, with the picture that the
event is about. -/
def Network.Pictures (n : Network) (peer : PeerId) (picture : Graph) (event : Event) : Prop :=
  ∃ node sender frame rest message, n.nodes.get? peer = some node ∧
    node.inbox = .deliver sender frame :: rest ∧ Message.decode frame = .ok message ∧
    node.engine.Tells ⟨n.directory peer node.neighbours, node.oracle⟩ sender message picture event

/-- A frame waits in the inbox of a node. -/
def Network.InFlight (n : Network) (frame : Frame) : Prop :=
  ∃ node ∈ n.nodes.values, ∃ sender, Command.deliver sender frame ∈ node.inbox

namespace Deployment

variable {d : Deployment} {g k : Graph} {m : Member} {label : String}

/-- A graph that shows members only and joins linked peers only. -/
structure Genuine (d : Deployment) (g : Graph) : Prop where
  sound : g.Sound
  known : ∀ p, g.Shows p → ∃ m ∈ d.members, m.id = p
  linked : ∀ e ∈ g.edges.values, d.Linked e.source e.target

/-- A graph whose labels are roles that a framework grants to the peers that carry them. -/
def Granted (d : Deployment) (framework : Framework) (g : Graph) : Prop :=
  ∀ p label, g.Labels p label → ∃ m ∈ d.members, m.id = p ∧ label ∈ framework.grantedRoles m.oracle

/-! ## How genuine graphs are built -/

theorem genuine_single (mem : m ∈ d.members) (labels : List String) :
    d.Genuine (.single m.id labels) where
  sound := Graph.sound_single ..
  known _ shown := ⟨m, mem, (shows_single.1 shown).symm⟩
  linked e there := by
    obtain ⟨id, found⟩ := Graph.mem_values.1 there
    rw [Graph.edges_single] at found
    cases found

theorem Genuine.addLabels (genuine : d.Genuine g) (mem : m ∈ d.members) (labels : List String) :
    d.Genuine (g.addLabels m.id labels) where
  sound := genuine.sound.addLabels ..
  known p shown := by
    rw [Graph.Shows, Graph.node?_addLabels] at shown
    split at shown
    · rename_i own
      exact ⟨m, mem, own.symm⟩
    · exact genuine.known p shown
  linked := genuine.linked

theorem Genuine.addEdge (genuine : d.Genuine g) {a b : PeerId} (linked : d.Linked a b)
    (label : String) : d.Genuine (g.addEdge a b label) where
  sound := genuine.sound.addEdge ..
  known := genuine.known
  linked e there := by
    obtain ⟨id, found⟩ := Graph.mem_values.1 there
    rcases Graph.edge_of_addEdge found with ⟨-, rfl⟩ | before
    · exact linked
    · exact genuine.linked e (Graph.mem_values.2 ⟨id, before⟩)

/-- What is seen over a link may be added. -/
theorem Genuine.observe (genuine : d.Genuine g) {a b : PeerId} (linked : d.Linked a b)
    (label : String) : d.Genuine (g.observe (.ofLink ⟨a, b⟩ label)) := by
  obtain ⟨m, mem, rfl⟩ := linked.symm.member
  obtain ⟨n, there, rfl⟩ := linked.member
  exact ((genuine.addLabels there _).addLabels mem _).addEdge linked label

theorem Genuine.absorb (first : d.Genuine g) (second : d.Genuine k) : d.Genuine (g.absorb k) where
  sound := first.sound.absorb second.sound
  known p shown := (Graph.shows_absorb.1 shown).elim (first.known p) (second.known p)
  linked e there := by
    obtain ⟨id, found⟩ := Graph.mem_values.1 there
    rw [Graph.edges_absorb, Option.or_eq_some_iff] at found
    rcases found with own | ⟨-, other⟩
    · exact first.linked e (Graph.mem_values.2 ⟨id, own⟩)
    · exact second.linked e (Graph.mem_values.2 ⟨id, other⟩)

/-- A path of links may be added. -/
theorem Genuine.addPath (genuine : d.Genuine g) {path : List PeerId}
    (linked : path.IsChain d.Linked) : d.Genuine (Engine.addPath label g path) := by
  fun_induction Engine.addPath label g path with
  | case1 g a b rest ih =>
    obtain ⟨link, linked⟩ := List.isChain_cons_cons.1 linked
    exact ih (genuine.observe link label) linked
  | case2 => exact genuine

theorem granted_single (mem : m ∈ d.members) {framework : Framework} :
    d.Granted framework (.single m.id (framework.grantedRoles m.oracle).toList) := by
  intro p label labelled
  obtain ⟨rfl, there⟩ := labels_single.1 labelled
  exact ⟨m, mem, rfl, OrderedSet.mem_def.2 there⟩

theorem Granted.absorb {framework : Framework} (first : d.Granted framework g)
    (second : d.Granted framework k) : d.Granted framework (g.absorb k) :=
  fun p label labelled => (Graph.labels_absorb.1 labelled).elim (first p label) (second p label)

/-! ## Messages in flight -/

variable {h : History} {s next : Scene} {deed : Deed} {a : Member} {id : MessageId}
  {message : Message} {e : Engine} {o : Dispatch}

/-- Searches name members by the identifiers that they use on routes. -/
def Aimed (d : Deployment) (h : History) : Prop :=
  ∀ peer id target, h.Started peer id (.trace target) →
    ∀ t ∈ d.members, t.identity.contains target = true → t.id = target

theorem Aimed.earlier {k : History} (aimed : d.Aimed (h ++ k)) : d.Aimed h :=
  fun peer id target began => aimed peer id target (began.mono k)

/-- What a message of a query has to do with the framework, if that was read: a request asks for what
the framework grants, and the graph of an answer carries only roles that it grants. -/
def Heeds (d : Deployment) : Exchange → Body → Prop
  | .comply framework, .complianceRequest other =>
    framework.Parsed → other.Proper ∧ other.outline = framework.outline
  | .comply framework, .complianceResponse graph => framework.Parsed → d.Granted framework graph
  | _, _ => True

/-- A message that carries no graph but a genuine one and heeds the exchange that it belongs to. -/
structure Truthful (d : Deployment) (h : History) (message : Message) : Prop where
  genuine : ∀ graph, message.body.graph? = some graph → d.Genuine graph
  belongs : ∃ peer exchange, h.Started peer message.id exchange ∧
    message.route.head? = some peer ∧ exchange.Admits message.body.kind ∧
      d.Heeds exchange message.body

theorem Truthful.mono (truthful : d.Truthful h message) (k : History) :
    d.Truthful (h ++ k) message where
  genuine := truthful.genuine
  belongs :=
    have ⟨peer, exchange, began, rest⟩ := truthful.belongs
    ⟨peer, exchange, began.mono k, rest⟩

/-- What is read from the frame of a message heeds an exchange as the message does. -/
theorem heeds_of_read {exchange : Exchange} (heeds : d.Heeds exchange o.message.body)
    (genuine : ∀ graph, o.message.body.graph? = some graph → d.Genuine graph)
    (read : Message.decode o.frame = .ok message) : d.Heeds exchange message.body := by
  have kind := (Message.kept_of_decode read).2.2
  cases exchange with
  | comply framework =>
    cases found : message.body with
    | complianceRequest other =>
      rw [found] at kind
      cases body : o.message.body with
      | complianceRequest asked =>
        rw [body] at heeds
        intro parsed
        obtain ⟨proper, outline⟩ := heeds parsed
        obtain ⟨_, found', kept⟩ := Message.framework_of_decode body proper read
        have own := (Message.proper_of_decode read).1
        rw [found] at found' own
        cases found'
        exact ⟨own, kept.trans outline⟩
      | _ =>
        rw [body] at kind
        cases kind
    | complianceResponse graph =>
      have same := Message.graph?_of_decode read fun graph carried => (genuine graph carried).sound
      rw [found] at kind same
      cases body : o.message.body with
      | complianceResponse shown =>
        rw [body] at heeds same
        cases same
        exact heeds
      | _ =>
        rw [body] at kind
        cases kind
    | _ => trivial
  | _ => trivial

/-- What is read from the frame of a truthful message is truthful. -/
theorem Truthful.read (truthful : d.Truthful h o.message)
    (read : Message.decode o.frame = .ok message) : d.Truthful h message where
  genuine graph carried := by
    refine truthful.genuine graph ?_
    rw [← carried]
    exact (Message.graph?_of_decode read fun graph carried => (truthful.genuine graph carried).sound).symm
  belongs := by
    obtain ⟨peer, exchange, began, first, admits, heeds⟩ := truthful.belongs
    obtain ⟨same, route, kind⟩ := Message.kept_of_decode read
    exact ⟨peer, exchange, same ▸ began, route ▸ first, kind ▸ admits,
      heeds_of_read heeds truthful.genuine read⟩

/-- The first messages of an exchange are truthful. -/
theorem truthful_of_start (mem : m ∈ d.members) (serves : e.Serves m) {exchange : Exchange}
    (began : h.Started m.id id exchange)
    (offer : o ∈ (e.start (d.surroundings m) id exchange).offered) : d.Truthful h o.message := by
  have body := Engine.start_composes offer
  obtain ⟨same, route, carried, -⟩ := Engine.start_offers offer
  constructor
  · intro graph carries
    rw [body] at carries
    cases exchange with
    | gossip members content =>
      cases carries
      rw [serves.primary]
      exact genuine_single mem _
    | _ => cases carries
  · refine ⟨m.id, exchange, same ▸ began, ?_, carried.admits, ?_⟩
    · rw [route, serves.primary]
      rfl
    · rw [body]
      cases exchange with
      | comply framework => exact fun parsed => ⟨parsed.proper, rfl⟩
      | _ => trivial

/-- The graph of a gossip may be shown to come from a linked peer. -/
theorem Genuine.observeSender (genuine : d.Genuine g) {near : PeerId} (linked : d.Linked near m.id) :
    d.Genuine (e.observeSender (d.surroundings m).directory g (some near)) := by
  have resolved : (d.surroundings m).directory.resolve near = some ⟨m.id, near⟩ :=
    resolve_of_linked linked.symm
  rw [Engine.observeSender, resolved]
  exact genuine.observe linked.symm _

/-- What a truthful message leads to is truthful. -/
theorem Truthful.handle {k : Packet} (truthful : d.Truthful h k.message) (aimed : d.Aimed h)
    (quest : d.Quest h k.message) (linked : d.Linked k.near k.far) (mem : m ∈ d.members)
    (arrived : k.far = m.id) (serves : e.Serves m)
    (offer : o ∈ (e.handle (d.surroundings m) (some k.near) k.message).offered) :
    d.Truthful h o.message := by
  have onward := Engine.handle_onward offer
  obtain ⟨peer, exchange, began, first, admits, heeds⟩ := truthful.belongs
  have route : o.message.route.head? = some peer := by
    rcases onward.route with same | longer
    · rw [same, first]
    · rw [longer, List.head?_append, first]
      rfl
  have here : d.Linked k.near m.id := arrived ▸ linked
  refine ⟨fun graph carried => ?_, peer, exchange, onward.id ▸ began, route, onward.admits admits, ?_⟩
  · have composes := Engine.handle_composes offer
    generalize o.message.body = body at composes carried
    cases composes with
    | same => exact truthful.genuine graph carried
    | @found target asks own =>
      cases carried
      obtain ⟨_, sought, -⟩ := quest.began target (asks ▸ rfl)
      rw [serves.identity] at own
      rw [← aimed _ _ target sought m mem own]
      exact genuine_single mem []
    | grown gossip =>
      cases carried
      exact (truthful.genuine _ (gossip ▸ rfl)).observeSender here
    | granted asks known =>
      cases carried
      cases known
      rw [serves.primary]
      exact (genuine_single mem _).addEdge here.symm _
  · have composes := Engine.handle_composes offer
    generalize o.message.body = body at composes
    cases composes with
    | same => exact heeds
    | granted asks known =>
      rw [asks] at heeds
      cases exchange with
      | comply framework =>
        intro parsed
        rw [serves.primary, ← Framework.grantedRoles_outline, (heeds parsed).2,
          Framework.grantedRoles_outline]
        exact granted_single mem
      | _ => trivial
    | _ => cases exchange <;> trivial

/-- All messages in flight are truthful. -/
theorem Reaches.truthful (reaches : d.Reaches h s) (aimed : d.Aimed h) :
    ∀ k ∈ s.flight, d.Truthful h k.message := by
  have along : ∀ k ∈ s.flight, d.Aimed h → d.Truthful h k.message := by
    refine reaches.flight_induction (fun h k => d.Aimed h → d.Truthful h k.message) ?_ ?_ ?_
    · exact fun holds aimed => (holds aimed.earlier).mono _
    · intro h s m id exchange o k prior mem offer arrives deed own began _
      exact (truthful_of_start mem (prior.ledger.serves mem) (h.started_concat own began) offer).read
        (o.read_of_arrival arrives).2
    · intro h s m k o l prior mem there arrived holds offer arrives aimed
      have ledger := prior.ledger
      exact ((holds aimed).handle aimed (prior.quest k there) (ledger.linked k there) mem arrived
        (ledger.serves mem) offer).read (o.read_of_arrival arrives).2
  exact fun k there => along k there aimed

/-- All messages that were ever offered are truthful. -/
theorem Reaches.truthful_offered (reaches : d.Reaches h s) (aimed : d.Aimed h) :
    ∀ deed ∈ h, ∀ o ∈ deed.offered, d.Truthful h o.message := by
  induction reaches with
  | opening => exact fun _ there => nomatch there
  | @advance h s next last prior advance ih =>
    intro deed there o offer
    rcases List.mem_append.1 there with before | same
    · exact (ih aimed.earlier deed before o offer).mono _
    · cases List.mem_singleton.1 same
      have ledger := prior.ledger
      cases advance with
      | start mem ticket id exchange call =>
        subst call
        exact truthful_of_start mem (ledger.serves mem) (h.started_concat rfl rfl) offer
      | @handle m mem k rest taken arrived id frame read step call =>
        subst call
        have here : k ∈ s.flight := taken ▸ Multiset.mem_cons_self ..
        exact ((prior.truthful aimed.earlier k here).handle aimed.earlier (prior.quest k here)
          (ledger.linked k here) mem arrived (ledger.serves mem) offer).mono _
      | idle idle =>
        rw [idle.offered] at offer
        cases offer

/-! ## Graphs of queries -/

/-- A graph of a query of a member: it is genuine and carries only roles that the framework grants, if that
was read. -/
structure Founded (d : Deployment) (h : History) (a : Member) (id : MessageId) (g : Graph) :
    Prop where
  genuine : d.Genuine g
  granted : ∃ framework, h.Started a.id id (.comply framework) ∧
    (framework.Parsed → d.Granted framework g)

theorem Founded.mono (founded : d.Founded h a id g) (later : History) :
    d.Founded (h ++ later) a id g where
  genuine := founded.genuine
  granted :=
    have ⟨framework, began, granted⟩ := founded.granted
    ⟨framework, began.mono later, granted⟩

/-- The graph of a query that absorbs a truthful answer stays founded. -/
theorem Truthful.absorbed (truthful : d.Truthful h message) (ledger : d.Ledger h s)
    (distinct : h.startedIds.Nodup) (mem : a ∈ d.members)
    (founded : ∀ graph, (s.engine a.id).workingGraph? message.id = some graph →
      d.Founded h a message.id graph)
    {answer : Graph} (body : message.body = .complianceResponse answer)
    (begins : message.beginsAt (s.engine a.id).identity = true) :
    d.Founded h a message.id ((s.engine a.id).absorbed message.id answer) := by
  have shown := truthful.genuine answer (body ▸ rfl)
  obtain ⟨peer, exchange, began, first, admits, heeds⟩ := truthful.belongs
  rw [body] at admits heeds
  cases exchange with
  | comply framework =>
    have home : peer = a.id := by
      obtain ⟨origin, first', own⟩ := Message.beginsAt_iff.1 begins
      cases first.symm.trans first'
      obtain ⟨starter, there, rfl⟩ := ledger.starters _ _ _ began
      rw [ledger.identity a mem] at own
      exact (contains_id_iff mem there).1 own
    subst home
    unfold Engine.absorbed
    cases working : (s.engine a.id).queries.peek? message.id with
    | none => exact ⟨shown, framework, began, heeds⟩
    | some graph =>
      obtain ⟨genuine, other, began', granted⟩ := founded graph working
      obtain ⟨-, same⟩ := History.Started.unique distinct began began'
      cases same
      exact ⟨genuine.absorb shown, framework, began, fun parsed =>
        (granted parsed).absorb (heeds parsed)⟩
  | _ => exact admits.elim

/-- All graphs of queries are founded, whatever was forgotten. -/
theorem Reaches.founded (reaches : d.Reaches h s) (distinct : h.startedIds.Nodup)
    (aimed : d.Aimed h) : ∀ a ∈ d.members, ∀ id graph,
      (s.engine a.id).workingGraph? id = some graph → d.Founded h a id graph := by
  induction reaches with
  | opening opening =>
    intro a first id graph found
    rw [opening.engine a first] at found
    cases found
  | @advance h s next deed prior advance ih =>
    have ledger := prior.ledger
    have earlier := ih (History.nodup_startedIds distinct) aimed.earlier
    have others : ∀ a ∈ d.members, ∀ id graph, (s.engine a.id).workingGraph? id = some graph →
        d.Founded (h ++ [deed]) a id graph := fun a first id graph found =>
      (earlier a first id graph found).mono _
    cases advance with
    | @start m mem ticket begun exchange step call =>
      subst call
      refine forall_engine_after (motive := fun a e => ∀ id graph, e.workingGraph? id = some graph →
        d.Founded _ a id graph) mem (fun id graph found => ?_) others
      cases exchange with
      | comply framework =>
        rcases Recency.peek?_of_put found with ⟨rfl, rfl⟩ | before
        · rw [(ledger.serves mem).primary]
          exact ⟨genuine_single mem _, framework, h.started_concat rfl rfl,
            fun _ => granted_single mem⟩
        · exact others m mem id graph before
      | _ => exact others m mem id graph found
    | @handle m mem k rest taken arrived _ frame read step call =>
      subst call
      have here : k ∈ s.flight := taken ▸ Multiset.mem_cons_self ..
      refine forall_engine_after (motive := fun a e => ∀ id graph, e.workingGraph? id = some graph →
        d.Founded _ a id graph) mem (fun id graph found => ?_) others
      rcases Engine.handle_queries with same | ⟨⟨answer, body⟩, origin⟩
      · rw [Engine.workingGraph?, same] at found
        exact others m mem id graph found
      · have begins := Message.beginsAt_iff.2 origin
        rw [Engine.workingGraph?, (Engine.handle_of_answered body begins).1] at found
        rcases Recency.peek?_of_put found with ⟨rfl, rfl⟩ | before
        · exact ((prior.truthful aimed.earlier k here).absorbed ledger
            (History.nodup_startedIds distinct) mem (earlier m mem k.message.id) body begins).mono _
        · exact others m mem id graph before
    | idle => exact others

/-! ## Events -/

/-- The picture that an event is about is genuine. -/
theorem Reaches.genuine_picture (reaches : d.Reaches h s) (distinct : h.startedIds.Nodup)
    (aimed : d.Aimed h) (first : a ∈ d.members) {k : Packet} (flight : k ∈ s.flight)
    (arrived : k.far = a.id) {picture : Graph} {event : Event}
    (tells : (s.engine a.id).Tells (d.surroundings a) (some k.near) k.message picture event) :
    d.Genuine picture := by
  have ledger := reaches.ledger
  have truthful := reaches.truthful aimed k flight
  cases tells with
  | @found target graph body begins =>
    have quest := reaches.quest k flight
    obtain ⟨rfl, t, there, named, linked, -⟩ := quest.found target graph body
    obtain ⟨_, sought, -⟩ := quest.began target (body ▸ rfl)
    rw [← aimed _ _ target sought t there named]
    exact (genuine_single there []).addPath linked
  | received body new =>
    exact (truthful.genuine _ (body ▸ rfl)).observeSender (arrived ▸ ledger.linked k flight)
  | changed body known => exact truthful.genuine _ (body ▸ rfl)
  | answered body begins =>
    exact (truthful.absorbed ledger distinct first
      (reaches.founded distinct aimed a first k.message.id) body begins).genuine

/-! ## Networks -/

/-- An event that a peer told in the course of a run, with the picture that it was about at that time. -/
def Depicts (d : Deployment) (ids : Nat → MessageId) (h : History) (peer : PeerId)
    (picture : Graph) (event : Event) : Prop :=
  ∃ front deed rest before position, h = front ++ deed :: rest ∧ d.Runs ids front before ∧
    (before.promote peer position).deed? peer = some deed ∧ deed.event = some event ∧
    (before.promote peer position).Pictures peer picture event

variable {ids : Nat → MessageId} {n : Network} {peer : PeerId} {picture : Graph} {event : Event}

/-- A frame that waits in an inbox and can be read is a message in flight. -/
theorem Reflects.flight_of_frame (reflects : d.Reflects n s) {frame : Frame}
    (waits : n.InFlight frame) (read : Message.decode frame = .ok message) :
    ∃ k ∈ s.flight, k.message = message := by
  obtain ⟨node, there, sender, queued⟩ := waits
  obtain ⟨peer, found⟩ := Graph.mem_values.1 there
  obtain ⟨m, -, rfl, stands⟩ := reflects.standing found
  obtain ⟨near, rfl⟩ := stands.expected _ queued
  have brings : Command.packet? m.id (.deliver (some near) frame) = some ⟨near, m.id, message⟩ := by
    simp [Command.packet?, read, Except.toOption]
  have arriving : (⟨near, m.id, message⟩ : Packet) ∈ s.flight.filter (·.far = m.id) := by
    rw [← stands.inbox]
    exact Multiset.mem_coe.2 (List.mem_filterMap.2 ⟨_, queued, brings⟩)
  exact ⟨_, Multiset.mem_of_mem_filter arriving, rfl⟩

/-- The picture of an event is told by the engine of a member while it handles a message in flight. -/
theorem Reflects.tells_of_pictures (reflects : d.Reflects n s) (first : a ∈ d.members)
    (pictures : n.Pictures a.id picture event) :
    ∃ k ∈ s.flight, k.far = a.id ∧
      (s.engine a.id).Tells (d.surroundings a) (some k.near) k.message picture event := by
  obtain ⟨node, sender, frame, rest, message, found, inbox, read, tells⟩ := pictures
  obtain ⟨own, found', stands⟩ := reflects.node a first
  cases found.symm.trans found'
  obtain ⟨near, rfl⟩ := stands.expected (.deliver sender frame) (by simp [inbox])
  obtain ⟨others, taken, -⟩ := stands.taken inbox read
  refine ⟨⟨near, a.id, message⟩, taken ▸ Multiset.mem_cons_self .., rfl, ?_⟩
  rwa [stands.engine, stands.oracle, stands.neighbours, reflects.directory_eq] at tells

/-- Every event that a peer tells is about some picture. -/
theorem exists_pictures {deed : Deed} (done : n.deed? peer = some deed)
    (told : deed.event = some event) : ∃ picture, n.Pictures peer picture event := by
  simp only [Network.deed?, Option.bind_eq_bind, Option.bind_eq_some_iff, Option.pure_def] at done
  obtain ⟨node, found, command, front, did⟩ := done
  cases did
  obtain ⟨rest, inbox⟩ : ∃ rest, node.inbox = command :: rest := List.head?_eq_some_iff.1 front
  simp only [RelayNode.act, inbox] at told
  cases command with
  | deliver sender frame =>
    cases read : Message.decode frame with
    | ok message =>
      have heard : (node.engine.handle ⟨n.directory peer node.neighbours, node.oracle⟩ sender
          message).result.event? = some event := by
        simp only [RelayNode.execute, Engine.handleFrame, read] at told
        split at told
        · rename_i other heard
          exact heard.trans told
        · cases told
      obtain ⟨picture, tells⟩ := Engine.handle_tells heard
      exact ⟨picture, node, sender, frame, rest, message, found, inbox, read, tells⟩
    | error fault =>
      simp only [RelayNode.execute, Engine.handleFrame, read] at told
      cases told
  | _ => cases told

/-- Every event of a run is about some picture. -/
theorem Runs.exists_depicts (runs : d.Runs ids h n) (told : event ∈ h.emitted peer) :
    ∃ picture, d.Depicts ids h peer picture event := by
  obtain ⟨first, assembled, runs⟩ := runs
  obtain ⟨deed, there, own, did⟩ := History.mem_emitted.1 told
  obtain ⟨front, rest, before, position, whole, runs, done⟩ := runs.exists_deed there
  rw [own] at done
  obtain ⟨picture, pictures⟩ := exists_pictures done did
  exact ⟨picture, front, deed, rest, before, position, whole, ⟨first, assembled, runs⟩, done, did,
    pictures⟩

/-- The events of a member show genuine pictures, with the identifiers of the member read as `me`. -/
theorem Depicts.genuine (depicts : d.Depicts ids h a.id picture event)
    (distinct : h.startedIds.Nodup) (aimed : d.Aimed h) (first : a ∈ d.members) :
    d.Genuine picture ∧ event.graph = picture.localized a.identity a.settings.selfLabel := by
  obtain ⟨front, deed, rest, before, position, rfl, runs, -, -, pictures⟩ := depicts
  obtain ⟨s, reaches, reflects⟩ := runs.reaches
  obtain ⟨k, flight, arrived, tells⟩ :=
    (reflects.promote a.id position).tells_of_pictures first pictures
  have serves := reaches.ledger.serves first
  refine ⟨reaches.genuine_picture (History.nodup_startedIds distinct) aimed.earlier first flight
    arrived tells, ?_⟩
  rw [tells.graph, Engine.localize, serves.identity, serves.settings]

/-- No graph shows a phantom. Whatever exchanges with different identifiers were started, with whatever
settings, the graphs of all messages that were offered and of all frames in flight are genuine,
and so are the graphs of queries and the pictures that events are about. The graph of a query
carries only roles that the framework of the query grants, if that was read. -/
theorem no_phantoms (runs : d.Runs ids h n) (distinct : h.startedIds.Nodup) (aimed : d.Aimed h) :
    (∀ deed ∈ h, ∀ o ∈ deed.offered, ∀ graph, o.message.body.graph? = some graph →
      d.Genuine graph) ∧
    (∀ frame message graph, n.InFlight frame → Message.decode frame = .ok message →
      message.body.graph? = some graph → d.Genuine graph) ∧
    (∀ peer id graph, n.workingGraph? peer id = some graph → d.Genuine graph ∧
      ∃ framework, h.Started peer id (.comply framework) ∧
        (framework.Parsed → d.Granted framework graph)) ∧
    (∀ a ∈ d.members, ∀ event ∈ h.emitted a.id,
      (∃ picture, d.Depicts ids h a.id picture event) ∧
      ∀ picture, d.Depicts ids h a.id picture event → d.Genuine picture ∧
        event.graph = picture.localized a.identity a.settings.selfLabel) := by
  obtain ⟨s, reaches, reflects⟩ := runs.reaches
  refine ⟨?_, ?_, ?_, ?_⟩
  · intro deed there o offer graph carried
    exact (reaches.truthful_offered aimed deed there o offer).genuine graph carried
  · intro frame message graph waits read carried
    obtain ⟨k, there, rfl⟩ := reflects.flight_of_frame waits read
    exact (reaches.truthful aimed k there).genuine graph carried
  · intro peer id graph working
    obtain ⟨node, found, held⟩ := Option.bind_eq_some_iff.1 working
    obtain ⟨m, mem, rfl, stands⟩ := reflects.standing found
    rw [stands.engine] at held
    obtain ⟨genuine, granted⟩ := reaches.founded distinct aimed m mem id graph held
    exact ⟨genuine, granted⟩
  · exact fun a first event told => ⟨runs.exists_depicts told, fun picture depicts =>
      depicts.genuine distinct aimed first⟩

/-- What happens when one of two linked members starts a search, a gossip and a query at once. -/
def bustle : History × Network :=
  (pair true).session .ofNat [(⟨"A"⟩, .trace ⟨"B"⟩), (⟨"A"⟩, .gossip [⟨"A"⟩, ⟨"B"⟩] .null),
    (⟨"A"⟩, .comply (.granting "trader" ⟨"B"⟩))] 16

/-- Of all that goes on between two linked members the graph of a query shows only what is so. -/
theorem no_phantoms_bustle :
    ∃ graph, bustle.2.workingGraph? ⟨"A"⟩ (.ofNat 2) = some graph ∧
      graph.Labels ⟨"B"⟩ "trader" ∧ (pair true).Genuine graph ∧
      (pair true).Granted (.granting "trader" ⟨"B"⟩) graph := by
  have runs : (pair true).Runs .ofNat bustle.1 bustle.2 := runs_session _ _ _ _ (by decide +kernel)
  generalize tried : bustle = r at runs ⊢
  obtain ⟨distinct, started, begun, labels⟩ : r.1.startedIds.Nodup ∧
      r.1.Started ⟨"A"⟩ (.ofNat 2) (.comply (.granting "trader" ⟨"B"⟩)) ∧
      r.1.filterMap Deed.started? = [(.ofNat 0, .trace ⟨"B"⟩),
        (.ofNat 1, .gossip [⟨"A"⟩, ⟨"B"⟩] .null), (.ofNat 2, .comply (.granting "trader" ⟨"B"⟩))] ∧
      ((r.2.workingGraph? ⟨"A"⟩ (.ofNat 2)).bind (·.node? ⟨"B"⟩)).map (·.labels.toList) =
        some ["trader"] := by
    subst tried
    decide +kernel
  have aimed : (pair true).Aimed r.1 := by
    rintro peer id target ⟨deed, there, -, began⟩
    have one : (id, Exchange.trace target) ∈ r.1.filterMap Deed.started? :=
      List.mem_filterMap.2 ⟨deed, there, began⟩
    rw [begun] at one
    obtain ⟨-, rfl⟩ : id = .ofNat 0 ∧ target = ⟨"B"⟩ := by simpa using one
    decide
  have parsed : (Framework.granting "trader" ⟨"B"⟩).Parsed :=
    .inr ⟨(Framework.granting "trader" ⟨"B"⟩).toJson, by decide +kernel⟩
  obtain ⟨node, there, labelled⟩ := Option.map_eq_some_iff.1 labels
  obtain ⟨graph, working, shown⟩ := Option.bind_eq_some_iff.1 there
  obtain ⟨genuine, framework, began, granted⟩ :=
    (no_phantoms runs distinct aimed).2.2.1 ⟨"A"⟩ (.ofNat 2) graph working
  obtain ⟨-, same⟩ := History.Started.unique distinct started began
  cases same
  exact ⟨graph, working, ⟨node, shown, OrderedSet.mem_def.2 (labelled ▸ List.mem_singleton.2 rfl)⟩,
    genuine, granted parsed⟩

end Deployment

end TrustMesh
