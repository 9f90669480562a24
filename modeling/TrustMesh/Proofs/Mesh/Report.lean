import TrustMesh.Proofs.Mesh.Draining
import TrustMesh.Proofs.Mesh.LastWord
import TrustMesh.Proofs.Mesh.QueryFlood

/-!
# What comes of one query

A query is started in a network in which nothing has happened, and the events of its origin
are read. `Network.Sole` is kept by every step of this: all that is done comes from the
query. So deeds, messages and events are bounded, and with enough steps reading ends when
every frame was handled (`exists_report`).
-/

namespace TrustMesh

open Std

namespace Network

variable {n next : Network} {peer head q : PeerId} {node : RelayNode} {deed : Deed}
  {exchange : Exchange} {h : History} {told : List Event}

/-- All that is done comes from one exchange: it waits in the inbox of its peer and nothing was done,
or it was started first and frames were handled since. -/
inductive Sole (peer : PeerId) (exchange : Exchange) : History → Network → Prop where
  | waiting {n : Network} {ticket : Nat} (inbox : ∀ q node, n.nodes.get? q = some node →
      node.inbox = if q = peer then [.start ticket exchange] else []) : Sole peer exchange [] n
  | begun {n : Network} {deed : Deed} {h : History} {id : MessageId} (own : deed.peer = peer)
      (started : deed.started? = some (id, exchange)) (relays : h.Relays)
      (frames : ∀ q node, n.nodes.get? q = some node →
        ∀ command ∈ node.inbox, command.isDelivery = true) : Sole peer exchange (deed :: h) n

/-- A deed does the first command of the inbox of its peer. -/
theorem command_of_deed? (found : n.nodes.get? head = some node) (done : n.deed? head = some deed) :
    ∃ rest, node.inbox = deed.command :: rest := by
  simp only [deed?, found, Option.bind_eq_bind, Option.bind_some, Option.bind_eq_some_iff,
    Option.pure_def] at done
  obtain ⟨command, first, made⟩ := done
  cases made
  exact List.head?_eq_some_iff.1 first

/-- Inboxes hold frames only after a turn, if what was left in them was frames only. -/
theorem frames_of_act (found : n.nodes.get? head = some node) {command : Command}
    {rest : List Command} (inbox : node.inbox = command :: rest)
    (own : ∀ left ∈ rest, left.isDelivery = true)
    (others : ∀ q other, q ≠ head → n.nodes.get? q = some other →
      ∀ left ∈ other.inbox, left.isDelivery = true) {final : RelayNode}
    (there : (n.act head).nodes.get? q = some final) :
    ∀ left ∈ final.inbox, left.isDelivery = true := by
  obtain ⟨frames, got, deliveries, -⟩ := get?_act found q
  rw [there] at got
  obtain ⟨before, earlier, rfl⟩ := Option.map_eq_some_iff.1 got.symm
  intro left mem
  refine (List.mem_append.1 mem).elim (fun old => ?_) (deliveries left)
  by_cases self : q = head
  · rw [if_pos self] at earlier
    cases earlier
    rcases inbox_act (n.directory head node.neighbours) (n.ids n.started) inbox with kept | empty
    · exact own left (kept ▸ old)
    · cases empty ▸ old
  · rw [if_neg self] at earlier
    exact others q before self earlier left old

theorem Sole.act (sole : Sole peer exchange h n) (busy : n.busy head = true)
    (done : n.deed? head = some deed) : Sole peer exchange (h ++ [deed]) (n.act head) := by
  obtain ⟨node, found, -⟩ := exists_of_busy busy
  obtain ⟨here, -, -⟩ := deed_eq_turn found done
  obtain ⟨rest, first⟩ := command_of_deed? found done
  cases sole with
  | waiting inbox =>
    have own := inbox head node found
    rw [first] at own
    split at own
    · rename_i self
      obtain ⟨command, rfl⟩ := List.cons_eq_cons.1 own
      refine .begun (here.trans self) (by rw [Deed.started?, command]) (List.forall_mem_nil _)
        fun q final there => ?_
      refine frames_of_act found first (List.forall_mem_nil _)
        (fun p other away known left mem => ?_) there
      rw [inbox p other known, if_neg fun same => away (same.trans self.symm)] at mem
      cases mem
    · cases own
  | begun own started relays frames =>
    have command : ∀ left ∈ deed.command :: rest, left.isDelivery = true :=
      first ▸ frames head node found
    refine .begun own started (fun d there => ?_) fun q final there => ?_
    · rcases List.mem_append.1 there with before | last
      · exact relays d before
      · cases List.mem_singleton.1 last
        exact command _ (by simp)
    · exact frames_of_act found first (fun left mem => command left (List.mem_cons_of_mem _ mem))
        (fun p other _ known => frames p other known) there

theorem Sole.collect (sole : Sole peer exchange h n) (reader : PeerId) :
    Sole peer exchange h (n.collect reader).2 := by
  have kept : ∀ q node, (n.collect reader).2.nodes.get? q = some node →
      ∃ before, n.nodes.get? q = some before ∧ node.inbox = before.inbox := by
    intro q node found
    rw [get?_collect] at found
    split at found
    · rename_i own
      obtain ⟨before, known, rfl⟩ := Option.map_eq_some_iff.1 found
      exact ⟨before, own ▸ known, rfl⟩
    · exact ⟨node, found, rfl⟩
  cases sole with
  | waiting inbox =>
    exact .waiting fun q node found => by
      obtain ⟨before, known, same⟩ := kept q node found
      exact same.trans (inbox q before known)
  | begun own started relays frames =>
    refine .begun own started relays fun q node found => ?_
    obtain ⟨before, known, same⟩ := kept q node found
    rw [same]
    exact frames q before known

theorem Drains.sole {reader : PeerId} {first : Network} (drains : Drains reader first h told n)
    (sole : Sole peer exchange [] first) : Sole peer exchange h n := by
  induction drains with
  | refl => exact sole
  | act prior queue busy done ih => exact ih.act busy done
  | skip prior queue idle ih =>
    cases ih with
    | waiting inbox => exact .waiting inbox
    | begun own started relays frames => exact .begun own started relays frames
  | collect prior ih => exact ih.collect _

/-- Where an exchange is all there is, it is all that was started. -/
theorem Sole.started (sole : Sole peer exchange h n) : h = [] ∨ ∃ id, h.startedIds = [id] ∧
    h.Started peer id exchange ∧ h.Only peer id exchange ∧ h.length = h.handled + 1 := by
  cases sole with
  | waiting => exact .inl rfl
  | @begun _ deed h id own started relays frames =>
    have whole : deed :: h = [deed] ++ h := rfl
    have command : deed.command.isDelivery = false := by
      refine Bool.eq_false_iff.2 fun delivers => ?_
      rw [History.started_of_delivery delivers] at started
      cases started
    refine .inr ⟨id, ?_, ⟨deed, by simp, own, started⟩, fun p other x began => ?_, ?_⟩
    · rw [whole, relays.startedIds]
      simp [History.startedIds, started]
    · obtain ⟨d, there, same, began⟩ := relays.started (whole ▸ began)
      cases List.mem_singleton.1 there
      rw [started] at began
      cases began
      exact ⟨same.symm.trans own, rfl, rfl⟩
    · rw [whole, History.handled_append, relays.handled, List.length_append]
      simp [History.handled, command, Nat.add_comm]

/-- A node that runs takes an exchange and joins the queue. -/
theorem exists_start (found : n.nodes.get? peer = some node) (alive : node.alive = true)
    (exchange : Exchange) : ∃ next, n.start peer exchange = .ok (n.tickets, next) ∧
      next.nodes = n.nodes.insert peer (node.receive [.start n.tickets exchange]) ∧
      peer ∈ next.queue := by
  have taken : n.submit peer (.start n.tickets exchange) =
      .ok ((n.setNode peer (node.receive [.start n.tickets exchange])).enqueue peer) := by
    simp [submit, found, RelayNode.submit, alive, RelayNode.receive]
  refine ⟨{ (n.setNode peer (node.receive [.start n.tickets exchange])).enqueue peer with
    tickets := n.tickets + 1 }, by rw [start, taken], ?_, mem_queue_enqueue.2 (.inr rfl)⟩
  exact Deployment.nodes_enqueue ..

end Network

namespace Deployment

variable {d : Deployment} {a m : Member} {h : History} {n next : Network} {exchange : Exchange}
  {framework : Framework} {ids : Nat → MessageId} {queue : List PeerId} {ticket : Nat}

/-- Before anything happens every node is as it was created. -/
theorem node_of_assemble (assembled : d.assemble ids = .ok n) :
    (∀ q node, n.nodes.get? q = some node → ∃ m ∈ d.members, m.id = q ∧
      node = .create ⟨m.identity, m.settings, .empty m.settings.seenCapacity,
        .empty m.settings.seenCapacity⟩ m.oracle (d.neighbours m.id)) ∧
    ∀ m ∈ d.members, (n.nodes.get? m.id).isSome := by
  obtain ⟨spawned, kept, -⟩ := spawned_of_foldlM d.pairwise_id_ne assembled
  simp only [neighbours_wired, nodes_wired, OrderedMap.get?_empty] at spawned kept
  refine ⟨fun q node found => ?_, fun m mem => Option.isSome_of_eq_some (spawned m mem).1⟩
  have known : ∃ m ∈ d.members, m.id = q := by
    by_contra absent
    push Not at absent
    rw [kept q absent] at found
    cases found
  obtain ⟨m, mem, rfl⟩ := known
  rw [(spawned m mem).1] at found
  exact ⟨m, mem, rfl, (Option.some.inj found).symm⟩

/-- An exchange is all there is when it is started before anything happens. -/
structure Poised (d : Deployment) (a : Member) (exchange : Exchange) (n : Network) : Prop where
  sole : n.Sole a.id exchange []
  attentive : n.Attentive
  unread : ∀ q, n.unread q = []

/-- An exchange can be started before anything happens. -/
theorem exists_poised (assembled : d.assemble ids = .ok n) (first : a ∈ d.members)
    (usable : ∀ m ∈ d.members, 0 < m.settings.eventBuffer) (queue : List PeerId)
    (exchange : Exchange) : ∃ ticket next,
      ({ n with queue } : Network).start a.id exchange = .ok (ticket, next) ∧
        d.Poised a exchange next := by
  obtain ⟨created, known⟩ := node_of_assemble assembled
  obtain ⟨node, found⟩ := Option.isSome_iff_exists.1 (known a first)
  obtain ⟨owner, member, -, rfl⟩ := created a.id node found
  obtain ⟨next, started, nodes, queued⟩ :=
    Network.exists_start (n := { n with queue }) found rfl exchange
  -- Every node is new, but for what waits in the inbox of the member.
  have fresh : ∀ q node, next.nodes.get? q = some node → ∃ m ∈ d.members, ∃ neighbours,
      node = (RelayNode.create ⟨m.identity, m.settings, .empty m.settings.seenCapacity,
        .empty m.settings.seenCapacity⟩ m.oracle neighbours).receive
          (if q = a.id then [.start n.tickets exchange] else []) := by
    intro q node there
    rw [nodes, OrderedMap.get?_insert] at there
    by_cases own : q = a.id
    · rw [if_pos own] at there
      exact ⟨owner, member, _, by rw [if_pos own, ← Option.some.inj there]⟩
    · rw [if_neg own] at there
      obtain ⟨m, mem, -, same⟩ := created q node there
      exact ⟨m, mem, _, by rw [if_neg own, RelayNode.receive_nil, same]⟩
  have inbox : ∀ q node, next.nodes.get? q = some node →
      node.inbox = if q = a.id then [.start n.tickets exchange] else [] := by
    intro q node there
    obtain ⟨m, -, neighbours, rfl⟩ := fresh q node there
    rfl
  refine ⟨n.tickets, next, started, .waiting inbox, ⟨fun q active => ?_, fun q node there => ?_⟩,
    fun q => ?_⟩
  · by_cases own : q = a.id
    · exact own ▸ queued
    · unfold Network.busy at active
      split at active
      · cases active
      · rename_i node there
        simp [RelayNode.busy, inbox q node there, own] at active
  · obtain ⟨m, mem, neighbours, rfl⟩ := fresh q node there
    refine ⟨usable m mem, fun waits => ?_⟩
    cases waits
  · rw [Network.unread]
    cases there : next.nodes.get? q with
    | none => rfl
    | some node =>
      obtain ⟨m, -, neighbours, rfl⟩ := fresh q node there
      rfl

/-- A query that is all there is ends: so many deeds are done at most, with the frames that are sent
and the events that are told. -/
theorem Poised.bounded (poised : d.Poised a (.comply framework) n)
    (runs : d.Runs ids [] n) {told : List Event} {m : Network} (drains : n.Drains a.id h told m) :
    h.length + h.sent + told.length ≤ 3 * fan d.members.length d.members.length + 2 := by
  have run := runs.trans drains.runs
  rw [List.nil_append] at run
  have fewer : told.length ≤ h.length := by
    have accounts := congrArg List.length (drains.accounts a.id)
    rw [poised.unread, List.nil_append, if_pos rfl, List.length_append] at accounts
    have bound : (h.emitted a.id).length ≤ h.length := List.length_filterMap_le ..
    omega
  rcases (drains.sole poised.sole).started with rfl | ⟨id, ids, -, only, length⟩
  · simp [History.sent, Nat.le_zero.1 fewer]
  · have handled := run.handled_le_sent
    have sent := run.sent_le_of_asks fun p other x started => by
      rw [(only p other x started).2.2]
      rfl
    rw [ids, List.length_singleton] at sent
    omega

/-- When nobody can do anything, the query was started and no frame is in flight. -/
theorem Poised.settled (poised : d.Poised a (.comply framework) n) (first : a ∈ d.members)
    (runs : d.Runs ids [] n) {told : List Event} {m : Network} (drains : n.Drains a.id h told m)
    (idle : ∀ q, m.busy q = false) (read : m.unread a.id = []) :
    m.Silent ∧ told = h.emitted a.id ∧ ∃ id, h.startedIds = [id] ∧
      h.Started a.id id (.comply framework) ∧ h.Only a.id id (.comply framework) := by
  have run := runs.trans drains.runs
  rw [List.nil_append] at run
  obtain ⟨s, reaches, reflects⟩ := run.reaches
  -- An idle node has nothing in its inbox unless an event waits, which would be unread.
  have empty : ∀ q node, m.nodes.get? q = some node → m.unread q = [] → node.inbox = [] := by
    intro q node found unread
    obtain ⟨_, -, -, stands⟩ := reflects.standing found
    rw [Network.unread, found] at unread
    have quiet : node.waiting = none := by
      simpa using (List.append_eq_nil_iff.1 (show node.unread = [] from unread)).2
    have nothing := idle q
    rw [Network.busy, found] at nothing
    simpa [RelayNode.busy, stands.alive, quiet] using nothing
  have accounts := drains.accounts
  simp only [poised.unread, List.nil_append] at accounts
  have sole := drains.sole poised.sole
  obtain ⟨own, found, -⟩ := reflects.node a first
  rcases sole.started with rfl | ⟨id, ids, started, only, -⟩
  · cases sole with
    | waiting inbox =>
      have waits := inbox a.id own found
      rw [empty a.id own found read, if_pos rfl] at waits
      cases waits
  · refine ⟨fun node there command mem => ?_, ?_, id, ids, started, only⟩
    · obtain ⟨q, found⟩ := Graph.mem_values.1 there
      obtain ⟨other, known, rfl, -⟩ := reflects.standing found
      have unread : m.unread other.id = [] := by
        by_cases self : other = a
        · exact self ▸ read
        · have none : h.emitted other.id = [] := List.eq_nil_iff_forall_not_mem.2 fun event told =>
            self (reaches.told_by_origin first only known told).1
          have away : other.id ≠ a.id := fun same => self (eq_of_id_eq known first same)
          simpa [none, away] using (accounts other.id).symm
      rw [empty other.id node found unread] at mem
      cases mem
    · simpa [read] using (accounts a.id).symm

/-- Reading the events of the origin of a query, with enough steps, ends with a graph that displays the
component of the origin if it is linked to another peer. If nobody can hear of the query, nothing is
told. -/
theorem exists_report (assembled : d.assemble ids = .ok n) (first : a ∈ d.members)
    (usable : ∀ m ∈ d.members, 0 < m.settings.eventBuffer ∧ 0 < m.settings.seenCapacity)
    {dedup : Bool} (alike : ∀ m ∈ d.members, m.settings.complianceDedup = dedup)
    (plain : ∀ m ∈ d.members, m ≠ a → m.id ≠ .me) (framework : Framework)
    (queue : List PeerId) : ∃ ticket next,
      ({ n with queue } : Network).start a.id (.comply framework) = .ok (ticket, next) ∧
      ∃ enough, ∀ limit ≥ enough,
        (framework.Relayable → (∃ q, d.Linked a.id q ∧ q ≠ a.id) →
          ∃ id view, d.Displays a framework view ∧
            (next.taken limit limit a.id).getLast? = some (.complianceUpdated id view)) ∧
        (d.Unheard a framework → next.taken limit limit a.id = []) := by
  obtain ⟨ticket, next, started, poised⟩ :=
    exists_poised assembled first (fun m mem => (usable m mem).1) queue (.comply framework)
  have runs : d.Runs ids [] next := by
    have rescheduled : Network.Runs n [] { n with queue } := Network.Runs.refl.step .reschedule
    exact ⟨n, assembled, rescheduled.step (.start started)⟩
  refine ⟨ticket, next, started,
    next.queue.length + (3 * fan d.members.length d.members.length + 2) + 1, fun limit enough => ?_⟩
  obtain ⟨h, m, drains, idle, read⟩ := Network.exists_drains_settled poised.attentive
    (fun _ _ _ => poised.bounded runs) enough
  obtain ⟨silent, told, id, alone, began, only⟩ := poised.settled first runs drains idle read
  have run := runs.trans drains.runs
  rw [List.nil_append] at run
  rw [told]
  constructor
  · intro relayable linked
    obtain ⟨view, displays, last⟩ := run.last_word silent (by simp [alone]) relayable alike first
      (fun m mem => by rw [alone]; exact (usable m mem).2) plain began only linked
    exact ⟨id, view, displays, last⟩
  · intro unheard
    obtain ⟨s, reaches, -⟩ := run.reaches
    exact (reaches.told_nothing first only unheard).2 a.id

end Deployment

end TrustMesh
