import TrustMesh.Proofs.Mesh.Scene

/-!
# From runs of a network to scenes

`Deployment.Reflects` relates a network to a scene: the node of every member has the
engine of the scene, and the frames of its inbox that can be read are the messages in
flight to it. Every step of a network keeps the relation, so `Deployment.Runs.reaches`
turns a run into deeds on scenes. The way back is `Reflects.exists_handle`: any message in
flight can be handled next, since the application may take the events of a node that waits.

Buffers of events, tickets and the queue of nodes have no part in it.
-/

namespace TrustMesh

open Std

/-- The packet that a command brings to a peer. -/
def Command.packet? (far : PeerId) : Command → Option Packet
  | .deliver (some near) frame => (Message.decode frame).toOption.map (⟨near, far, ·⟩)
  | _ => none

/-- A command that an exchange puts into an inbox: its start, or a frame of a known sender. -/
def Command.Expected : Command → Prop
  | .start .. => True
  | .deliver sender _ => ∃ near, sender = some near
  | .shutdown => False

namespace Deployment

/-- The node of a member stands for its engine and for the messages in flight to it. -/
structure Stands (d : Deployment) (s : Scene) (m : Member) (node : RelayNode) : Prop where
  engine : node.engine = s.engine m.id
  oracle : node.oracle = m.oracle
  neighbours : node.neighbours = d.neighbours m.id
  alive : node.alive = true
  expected : ∀ command ∈ node.inbox, command.Expected
  inbox : ↑(node.inbox.filterMap (Command.packet? m.id)) = s.flight.filter (·.far = m.id)

/-- The nodes and inboxes of a network amount to a scene. -/
structure Reflects (d : Deployment) (n : Network) (s : Scene) : Prop where
  node : ∀ m ∈ d.members, ∃ node, n.nodes.get? m.id = some node ∧ d.Stands s m node
  registered : ∀ m ∈ d.members, m.id ∈ n.registered
  member : ∀ peer node, n.nodes.get? peer = some node → ∃ m ∈ d.members, m.id = peer
  destined : ∀ k ∈ s.flight, ∃ m ∈ d.members, m.id = k.far

variable {d : Deployment} {n next : Network} {s t : Scene} {m : Member} {node : RelayNode}

/-- The relation looks at nodes and registrations only. -/
theorem Reflects.congr (reflects : d.Reflects n s) (nodes : next.nodes = n.nodes)
    (registered : next.registered = n.registered) : d.Reflects next s := by
  constructor
  · rw [nodes]
    exact reflects.node
  · rw [registered]
    exact reflects.registered
  · rw [nodes]
    exact reflects.member
  · exact reflects.destined

/-- One member gets a new node; the others do not notice. -/
theorem Reflects.setNode (reflects : d.Reflects n s) (mem : m ∈ d.members)
    (stands : d.Stands t m node)
    (engine : ∀ peer, peer ≠ m.id → t.engine peer = s.engine peer)
    (flight : ∀ peer, peer ≠ m.id → t.flight.filter (·.far = peer) = s.flight.filter (·.far = peer))
    (destined : ∀ k ∈ t.flight, ∃ m ∈ d.members, m.id = k.far) :
    d.Reflects (n.setNode m.id node) t := by
  constructor
  · intro other there
    by_cases same : other.id = m.id
    · cases eq_of_id_eq there mem same
      exact ⟨node, by simp [Network.setNode], stands⟩
    · obtain ⟨own, found, stands⟩ := reflects.node other there
      refine ⟨own, by simpa [Network.setNode, same] using found, ?_⟩
      refine { stands with engine := ?_, inbox := ?_ }
      · rw [engine _ same]
        exact stands.engine
      · rw [flight _ same]
        exact stands.inbox
  · exact reflects.registered
  · intro peer own found
    rw [Network.setNode, OrderedMap.get?_insert] at found
    split at found
    · rename_i same
      exact ⟨m, mem, same.symm⟩
    · exact reflects.member peer own found
  · exact destined

theorem Reflects.setNode_self (reflects : d.Reflects n s) (mem : m ∈ d.members)
    (stands : d.Stands s m node) : d.Reflects (n.setNode m.id node) s :=
  reflects.setNode mem stands (fun _ _ => rfl) (fun _ _ => rfl) reflects.destined

/-- A peer with a node is a member whose node stands for its part of the scene. -/
theorem Reflects.standing (reflects : d.Reflects n s) {peer : PeerId}
    (found : n.nodes.get? peer = some node) :
    ∃ m ∈ d.members, m.id = peer ∧ d.Stands s m node := by
  obtain ⟨m, mem, rfl⟩ := reflects.member peer node found
  obtain ⟨own, found', stands⟩ := reflects.node m mem
  rw [found] at found'
  cases found'
  exact ⟨m, mem, rfl, stands⟩

/-- The nodes of linked peers accept frames, so the directory is that of the deployment. -/
theorem Reflects.directory_eq (reflects : d.Reflects n s) (peer : PeerId) :
    n.directory peer (d.neighbours peer) = d.directory peer := by
  have sends : ∀ link : Link, n.send (d.neighbours peer) link =
      if link.far ∉ d.neighbours peer then .error (.unreachable link.far) else .ok () := by
    intro link
    unfold Network.send
    split
    · rfl
    · rename_i mem
      obtain ⟨m, there, far⟩ := (mem_neighbours.1 (not_not.1 mem)).member
      obtain ⟨node, found, stands⟩ := reflects.node m there
      have registered := reflects.registered m there
      rw [far] at found registered
      simp [Network.handle?, registered, found, stands.alive]
  have refused : ∀ p : PeerId, p ∉ (OrderedSet.empty : OrderedSet PeerId) := OrderedSet.not_mem_empty
  unfold Network.directory directory Directory.ofPeers
  congr 1
  funext link frame
  rw [sends]
  simp only [refused, if_false]

/-! ## Inboxes -/

theorem nodes_enqueue (n : Network) (peer : PeerId) : (n.enqueue peer).nodes = n.nodes := by
  unfold Network.enqueue
  split <;> rfl

theorem registered_enqueue (n : Network) (peer : PeerId) :
    (n.enqueue peer).registered = n.registered := by
  unfold Network.enqueue
  split <;> rfl

/-- The order of an inbox does not matter. -/
theorem Stands.promote (stands : d.Stands s m node) (position : Nat) :
    d.Stands s m (node.promote position) := by
  unfold RelayNode.promote
  split
  · rename_i command found
    have permuted : (command :: node.inbox.eraseIdx position).Perm node.inbox := by
      obtain ⟨bound, rfl⟩ := List.getElem?_eq_some_iff.1 found
      exact List.getElem_cons_eraseIdx_perm bound
    refine { stands with expected := fun other mem => ?_, inbox := ?_ }
    · exact stands.expected other (permuted.mem_iff.1 mem)
    · rw [← stands.inbox]
      exact Multiset.coe_eq_coe.2 (permuted.filterMap _)
  · exact stands

theorem Reflects.promote (reflects : d.Reflects n s) (peer : PeerId) (position : Nat) :
    d.Reflects (n.promote peer position) s := by
  unfold Network.promote
  split
  · rename_i node found
    obtain ⟨m, mem, rfl, stands⟩ := reflects.standing found
    exact reflects.setNode_self mem (stands.promote position)
  · exact reflects

/-- A member takes any command; a frame is in flight from then on. -/
theorem Reflects.submit (reflects : d.Reflects n s) (mem : m ∈ d.members) (command : Command)
    (expected : command.Expected) :
    ∃ next, n.submit m.id command = .ok next ∧
      d.Reflects next ⟨s.engine, ↑(command.packet? m.id).toList + s.flight⟩ := by
  obtain ⟨node, found, stands⟩ := reflects.node m mem
  have destination : ∀ k ∈ (command.packet? m.id).toList, k.far = m.id := by
    intro k there
    unfold Command.packet? at there
    split at there
    · rename_i near frame
      cases read : Message.decode frame with
      | ok message =>
        rw [read] at there
        cases List.mem_singleton.1 there
        rfl
      | error fault =>
        rw [read] at there
        cases there
    · cases there
  have taken : node.submit command = .ok { node with inbox := node.inbox ++ [command] } := by
    simp [RelayNode.submit, stands.alive]
  refine ⟨_, by simp only [Network.submit, found, taken]; rfl, ?_⟩
  refine Reflects.congr ?_ (nodes_enqueue ..) (registered_enqueue ..)
  refine reflects.setNode mem ⟨stands.engine, stands.oracle, stands.neighbours, stands.alive, ?_, ?_⟩
    (fun _ _ => rfl) ?_ ?_
  · intro other there
    rcases List.mem_append.1 there with before | last
    · exact stands.expected other before
    · cases List.mem_singleton.1 last
      exact expected
  · have arriving : Multiset.filter (·.far = m.id) ↑(command.packet? m.id).toList =
        ((command.packet? m.id).toList : Multiset Packet) := Multiset.filter_eq_self.2 destination
    rw [Multiset.filter_add, arriving, ← stands.inbox, List.filterMap_append, Multiset.add_comm,
      Multiset.coe_add, List.filterMap_cons, List.filterMap_nil]
    cases command.packet? m.id <;> rfl
  · intro peer differ
    have passing : Multiset.filter (·.far = peer) ((command.packet? m.id).toList : Multiset Packet) =
        0 := Multiset.filter_eq_nil.2 fun k there far => differ (far.symm.trans (destination k there))
    rw [Multiset.filter_add, passing, Multiset.zero_add]
  · intro k there
    rcases Multiset.mem_add.1 there with new | there
    · exact ⟨m, mem, (destination k new).symm⟩
    · exact reflects.destined k there

/-- A frame over a link is in flight once it was routed, if it can be read. -/
theorem Reflects.route (reflects : d.Reflects n s) {near : PeerId} {o : Dispatch}
    (linked : d.Linked near o.link.far) :
    d.Reflects (n.route (d.directory near) o) ⟨s.engine, arrivals [o] + s.flight⟩ := by
  obtain ⟨m, mem, far⟩ := linked.member
  obtain ⟨next, taken, reflects⟩ :=
    reflects.submit mem (.deliver (some o.link.near) o.frame) ⟨_, rfl⟩
  have posted : n.route (d.directory near) o = next := by
    simp only [Network.route, accepts_of_linked linked, if_true, Network.post, ← far, taken]
  have packet : (Command.deliver (some o.link.near) o.frame).packet? m.id = o.arrival? := by
    rw [Dispatch.arrival?, ← far]
    rfl
  have arriving : arrivals [o] = ↑o.arrival?.toList := by
    cases found : o.arrival? <;> simp [arrivals, found]
  rw [posted, arriving, ← packet]
  exact reflects

/-- All messages that are offered over links are in flight once they were routed. -/
theorem Reflects.routeAll (reflects : d.Reflects n s) {near : PeerId} {offered : List Dispatch}
    (linked : ∀ o ∈ offered, d.Linked near o.link.far) :
    d.Reflects (offered.foldl (Network.route (d.directory near)) n)
      ⟨s.engine, s.flight + arrivals offered⟩ := by
  induction offered generalizing n s with
  | nil => simpa [arrivals] using reflects
  | cons o rest ih =>
    have first := reflects.route (linked o (by simp))
    have all := ih first fun o mem => linked o (List.mem_cons_of_mem _ mem)
    have split : arrivals (o :: rest) = arrivals [o] + arrivals rest := arrivals_append [o] rest
    rwa [split, ← Multiset.add_assoc, Multiset.add_comm s.flight]

/-! ## Steps of a network -/

/-- A node did a command: its engine changed, some messages left its inbox and others were offered. -/
theorem Reflects.perform (reflects : d.Reflects n s) (mem : m ∈ d.members) {engine : Engine}
    {rest : Multiset Packet} {offered : List Dispatch} {started : Nat}
    (stands : d.Stands ⟨Function.update s.engine m.id engine, rest⟩ m node)
    (flight : ∀ peer, peer ≠ m.id → rest.filter (·.far = peer) = s.flight.filter (·.far = peer))
    (fewer : rest ≤ s.flight) (linked : ∀ o ∈ offered, d.Linked m.id o.link.far) :
    d.Reflects (offered.foldl (Network.route (d.directory m.id))
      { n.setNode m.id node with started }) (s.after m.id engine rest offered) := by
  have replaced : d.Reflects (n.setNode m.id node) ⟨Function.update s.engine m.id engine, rest⟩ :=
    reflects.setNode mem stands (fun _ differ => Function.update_of_ne differ ..) flight
      fun k there => reflects.destined k (Multiset.mem_of_le fewer there)
  exact (replaced.congr rfl rfl : d.Reflects { n.setNode m.id node with started } _).routeAll
    linked

/-- A buffer of events does not matter to what a node stands for. -/
theorem Stands.emit (stands : d.Stands s m node) (event : Event) :
    d.Stands s m (node.emit event) := by
  unfold RelayNode.emit
  split
  · exact { stands with }
  · exact { stands with }

/-- The first frame of an inbox that can be read is in flight. -/
theorem Stands.taken (stands : d.Stands s m node) {near : PeerId} {frame : Frame}
    {rest : List Command} {message : Message}
    (inbox : node.inbox = .deliver (some near) frame :: rest)
    (read : Message.decode frame = .ok message) :
    ∃ others, s.flight = ⟨near, m.id, message⟩ ::ₘ others ∧
      ↑(rest.filterMap (Command.packet? m.id)) = others.filter (·.far = m.id) := by
  have content := stands.inbox
  have arriving : Command.packet? m.id (.deliver (some near) frame) = some ⟨near, m.id, message⟩ := by
    simp [Command.packet?, read, Except.toOption]
  rw [inbox, List.filterMap_cons_some arriving, ← Multiset.cons_coe] at content
  obtain ⟨others, taken⟩ : ∃ others, s.flight = ⟨near, m.id, message⟩ ::ₘ others := by
    refine Multiset.exists_cons_of_mem (Multiset.mem_of_mem_filter (p := (·.far = m.id)) ?_)
    rw [← content]
    exact Multiset.mem_cons_self ..
  have here : (⟨near, m.id, message⟩ ::ₘ others).filter (·.far = m.id) =
      ⟨near, m.id, message⟩ ::ₘ others.filter (·.far = m.id) := Multiset.filter_cons_of_pos _ rfl
  rw [taken, here, Multiset.cons_inj_right] at content
  exact ⟨others, taken, content⟩

/-- A member handles the first frame of its inbox, which can be read. -/
theorem Reflects.act_deliver (reflects : d.Reflects n s) (mem : m ∈ d.members)
    (found : n.nodes.get? m.id = some node) (stands : d.Stands s m node) {near : PeerId}
    {frame : Frame} {rest : List Command} {message : Message}
    (inbox : node.inbox = .deliver (some near) frame :: rest)
    (read : Message.decode frame = .ok message) {step : Step Outcome}
    (call : (s.engine m.id).handle (d.surroundings m) (some near) message = step) :
    ∃ others, s.flight = ⟨near, m.id, message⟩ ::ₘ others ∧
      n.deed? m.id = some ⟨m.id, .deliver (some near) frame, n.ids n.started, step.offered,
        step.result.event?⟩ ∧
      d.Reflects (n.act m.id) (s.after m.id step.engine others step.offered) := by
  obtain ⟨others, taken, content⟩ := stands.taken inbox read
  refine ⟨others, taken, ?_⟩
  have directory : n.directory m.id node.neighbours = d.directory m.id := by
    rw [stands.neighbours, reflects.directory_eq]
  have call : node.engine.handle ⟨d.directory m.id, node.oracle⟩ (some near) message = step := by
    rw [stands.engine, stands.oracle]
    exact call
  have own : d.Stands ⟨Function.update s.engine m.id step.engine, others⟩ m { node with
      inbox := rest, engine := step.engine, asked := node.asked ++ step.asked } :=
    ⟨by simp, stands.oracle, stands.neighbours, stands.alive,
      fun other there => stands.expected other (inbox ▸ List.mem_cons_of_mem _ there), content⟩
  have elsewhere : ∀ peer, peer ≠ m.id →
      others.filter (·.far = peer) = s.flight.filter (·.far = peer) := by
    intro peer differ
    have away : ¬ (⟨near, m.id, message⟩ : Packet).far = peer := Ne.symm differ
    rw [taken, Multiset.filter_cons, if_neg away, Multiset.zero_add]
  have linked : ∀ o ∈ step.offered, d.Linked m.id o.link.far := by
    intro o there
    obtain ⟨far, resolved⟩ := (Engine.handle_onward (call ▸ there)).link
    obtain ⟨same, linked⟩ := resolve_eq_some resolved
    rwa [same]
  have fewer : others ≤ s.flight := taken ▸ Multiset.le_cons_self ..
  simp only [Network.deed?, Network.act, found, inbox, RelayNode.act, directory, RelayNode.execute,
    Engine.handleFrame, read, call, Option.bind_eq_bind, Option.bind_some, List.head?_cons,
    Option.pure_def]
  cases told : step.result.event? with
  | some event => exact ⟨rfl, reflects.perform mem (own.emit event) elsewhere fewer linked⟩
  | none => exact ⟨rfl, reflects.perform mem own elsewhere fewer linked⟩

/-- A deed of a node is a deed on the scene. -/
theorem Reflects.act (reflects : d.Reflects n s) {peer : PeerId} {deed : Deed}
    (done : n.deed? peer = some deed) :
    ∃ t, d.Advance s deed t ∧ d.Reflects (n.act peer) t := by
  have whole := done
  simp only [Network.deed?, Option.bind_eq_bind, Option.bind_eq_some_iff, Option.pure_def] at done
  obtain ⟨node, found, command, first, told⟩ := done
  obtain ⟨m, mem, rfl, stands⟩ := reflects.standing found
  obtain ⟨rest, inbox⟩ : ∃ rest, node.inbox = command :: rest := List.head?_eq_some_iff.1 first
  have directory : n.directory m.id node.neighbours = d.directory m.id := by
    rw [stands.neighbours, reflects.directory_eq]
  have later : ∀ other ∈ rest, other.Expected := fun other there =>
    stands.expected other (inbox ▸ List.mem_cons_of_mem _ there)
  cases command with
  | start ticket exchange =>
    cases told
    simp only [Network.act, found, RelayNode.act, inbox, directory]
    have content := stands.inbox
    rw [inbox] at content
    simp only [RelayNode.execute]
    generalize call : node.engine.start _ _ exchange = step
    rw [stands.engine, stands.oracle] at call
    refine ⟨_, .start mem ticket _ exchange call, reflects.perform mem ?_ (fun _ _ => rfl) le_rfl ?_⟩
    · exact ⟨by simp, stands.oracle, stands.neighbours, stands.alive, later, content⟩
    · intro o there
      obtain ⟨-, -, -, far, resolved⟩ := Engine.start_offers (call ▸ there)
      obtain ⟨same, linked⟩ := resolve_eq_some resolved
      rwa [same]
  | deliver sender frame =>
    obtain ⟨near, rfl⟩ := stands.expected (.deliver sender frame) (by simp [inbox])
    cases read : Message.decode frame with
    | error fault =>
      cases told
      simp only [Network.act, found, RelayNode.act, inbox, directory]
      have content := stands.inbox
      rw [inbox, List.filterMap_cons_none (by simp [Command.packet?, read, Except.toOption])]
        at content
      simp only [RelayNode.execute, Engine.handleFrame, read]
      have own : d.Stands s m { node with inbox := rest, asked := node.asked ++ [] } :=
        ⟨stands.engine, stands.oracle, stands.neighbours, stands.alive, later, content⟩
      exact ⟨s, .idle ⟨rfl, rfl, rfl⟩, (reflects.setNode_self mem own).congr rfl rfl⟩
    | ok message =>
      obtain ⟨others, taken, same, after⟩ := reflects.act_deliver mem found stands inbox read rfl
      cases Option.some.inj (whole.symm.trans same)
      exact ⟨_, .handle mem taken rfl (n.ids n.started) read rfl, after⟩
  | shutdown => exact (stands.expected .shutdown (by simp [inbox])).elim

/-- Taking the events of a node changes nothing in the scene. -/
theorem Reflects.collect (reflects : d.Reflects n s) (peer : PeerId) :
    d.Reflects (n.collect peer).2 s := by
  unfold Network.collect
  split
  · exact reflects
  · rename_i node found
    obtain ⟨m, mem, rfl, stands⟩ := reflects.standing found
    have emptied : d.Reflects (n.setNode m.id node.collect.2) s :=
      reflects.setNode_self mem { stands with }
    simp only
    split
    · exact emptied.congr (nodes_enqueue ..) (registered_enqueue ..)
    · exact emptied

/-- An exchange that is to be started changes nothing in the scene until the node starts it. -/
theorem Reflects.start (reflects : d.Reflects n s) {peer : PeerId} {exchange : Exchange}
    {ticket : Nat} (taken : n.start peer exchange = .ok (ticket, next)) : d.Reflects next s := by
  unfold Network.start at taken
  split at taken
  · rename_i after submitted
    cases taken
    have known : ∃ m ∈ d.members, m.id = peer := by
      unfold Network.submit at submitted
      split at submitted
      · cases submitted
      · rename_i node found
        exact reflects.member peer node found
    obtain ⟨m, mem, rfl⟩ := known
    obtain ⟨other, submitted', reflects⟩ :=
      reflects.submit mem (.start n.tickets exchange) trivial
    rw [submitted] at submitted'
    cases submitted'
    have reflects : d.Reflects after s := by simpa [Command.packet?] using reflects
    exact reflects.congr rfl rfl
  · cases taken

/-- Every step of a network is a deed on the scene or nothing at all. -/
theorem Reflects.step (reflects : d.Reflects n s) {deeds : List Deed}
    (step : n.Step deeds next) :
    (deeds = [] ∧ d.Reflects next s) ∨
      ∃ deed t, deeds = [deed] ∧ d.Advance s deed t ∧ d.Reflects next t := by
  cases step with
  | start taken => exact .inl ⟨rfl, reflects.start taken⟩
  | collect => exact .inl ⟨rfl, reflects.collect _⟩
  | @act peer position deed busy done =>
    have reflects := reflects.promote peer position
    obtain ⟨t, advance, reflects⟩ := reflects.act done
    exact .inr ⟨_, t, rfl, advance, reflects⟩
  | reschedule => exact .inl ⟨rfl, reflects.congr rfl rfl⟩

/-! ## Messages that are handled next -/

/-- A message in flight came with a frame that waits in an inbox. -/
theorem Stands.exists_frame (stands : d.Stands s m node) {k : Packet} (there : k ∈ s.flight)
    (arrived : k.far = m.id) :
    ∃ (position : Nat) (frame : Frame),
      node.inbox[position]? = some (.deliver (some k.near) frame) ∧
      Message.decode frame = .ok k.message := by
  have arriving : k ∈ s.flight.filter (·.far = m.id) := Multiset.mem_filter.2 ⟨there, arrived⟩
  rw [← stands.inbox, Multiset.mem_coe, List.mem_filterMap] at arriving
  obtain ⟨command, queued, brings⟩ := arriving
  obtain ⟨position, found⟩ := List.mem_iff_getElem?.1 queued
  unfold Command.packet? at brings
  split at brings
  · rename_i near frame
    cases read : Message.decode frame with
    | ok message =>
      rw [read] at brings
      cases brings
      exact ⟨position, frame, found, read⟩
    | error fault =>
      rw [read] at brings
      cases brings
  · cases brings

/-- A member whose events were taken waits for nothing. -/
theorem Reflects.exists_collected (reflects : d.Reflects n s) (mem : m ∈ d.members) :
    ∃ node, (n.collect m.id).2.nodes.get? m.id = some node ∧ d.Stands s m node ∧
      node.waiting = none := by
  obtain ⟨node, found, stands⟩ := reflects.node m mem
  refine ⟨node.collect.2, ?_, { stands with }, rfl⟩
  simp only [Network.collect, found]
  split
  · rw [nodes_enqueue]
    simp [Network.setNode]
  · simp [Network.setNode]

/-- Any message in flight can be handled next. -/
theorem Reflects.exists_handle (reflects : d.Reflects n s) (mem : m ∈ d.members) {k : Packet}
    (there : k ∈ s.flight) (arrived : k.far = m.id) {step : Step Outcome}
    (call : (s.engine m.id).handle (d.surroundings m) (some k.near) k.message = step) :
    ∃ next deed others, s.flight = k ::ₘ others ∧ n.Runs [deed] next ∧
      deed.command.isDelivery = true ∧
      d.Advance s deed (s.after m.id step.engine others step.offered) ∧
      d.Reflects next (s.after m.id step.engine others step.offered) := by
  obtain ⟨node, found, stands, ready⟩ := reflects.exists_collected mem
  obtain ⟨position, frame, waits, read⟩ := stands.exists_frame there arrived
  have front : (node.promote position).inbox =
      .deliver (some k.near) frame :: node.inbox.eraseIdx position := by
    rw [RelayNode.promote, waits]
  have ready : (node.promote position).waiting = none := by
    rw [RelayNode.promote, waits]
    exact ready
  have stands := stands.promote position
  have moved : ((n.collect m.id).2.promote m.id position).nodes.get? m.id =
      some (node.promote position) := by
    simp [Network.promote, found, Network.setNode]
  obtain ⟨others, taken, done, after⟩ := ((reflects.collect m.id).promote m.id position).act_deliver
    mem moved stands front read call
  have busy : ((n.collect m.id).2.promote m.id position).busy m.id = true := by
    simp [Network.busy, moved, RelayNode.busy, stands.alive, ready, front]
  have whole : (⟨k.near, m.id, k.message⟩ : Packet) = k := by rw [← arrived]
  rw [whole] at taken
  refine ⟨_, _, others, taken, .step (.step .refl .collect) (.act busy done), rfl, ?_, after⟩
  exact .handle mem taken arrived _ read call

/-! ## Runs -/

theorem nodes_wired (d : Deployment) (ids : Nat → MessageId) : (d.wired ids).nodes = .empty := by
  have general : ∀ (links : List (PeerId × PeerId)) (n : Network),
      (links.foldl (fun n link => n.connect link.1 link.2) n).nodes = n.nodes := by
    intro links
    induction links with
    | nil => exact fun _ => rfl
    | cons link rest ih => exact fun n => ih _
  exact general ..

/-- Spawning members with different identifiers gives each of them its node. -/
theorem spawned_of_foldlM {members : List Member} {n next : Network}
    (distinct : members.Pairwise fun m o => m.id ≠ o.id)
    (built : members.foldlM (fun n m => n.spawn m.identity m.oracle m.settings) n = .ok next) :
    (∀ m ∈ members, next.nodes.get? m.id = some (.create ⟨m.identity, m.settings,
        .empty m.settings.seenCapacity, .empty m.settings.seenCapacity⟩ m.oracle
          (n.neighbours m.id)) ∧ m.id ∈ next.registered) ∧
      (∀ peer, (∀ m ∈ members, m.id ≠ peer) → next.nodes.get? peer = n.nodes.get? peer) ∧
      ∀ peer ∈ n.registered, peer ∈ next.registered := by
  induction members generalizing n with
  | nil =>
    cases built
    exact ⟨by simp, fun _ _ => rfl, fun _ mem => mem⟩
  | cons m rest ih =>
    obtain ⟨differ, distinct⟩ := List.pairwise_cons.1 distinct
    rw [List.foldlM_cons] at built
    cases first : n.spawn m.identity m.oracle m.settings with
    | error fault =>
      rw [first] at built
      cases built
    | ok between =>
      rw [first] at built
      obtain ⟨spawned, kept, registered⟩ := ih distinct built
      have own : between = { n.setNode m.id (.create ⟨m.identity, m.settings,
          .empty m.settings.seenCapacity, .empty m.settings.seenCapacity⟩ m.oracle
            (n.neighbours m.id)) with registered := n.registered.insert m.id } := by
        unfold Network.spawn Engine.create at first
        split at first
        · cases first
        · rename_i engine made
          split at made
          · cases made
          · cases made
            cases first
            rfl
      subst own
      refine ⟨?_, ?_, ?_⟩
      · intro other there
        rcases List.mem_cons.1 there with rfl | there
        · refine ⟨?_, registered _ (by simp)⟩
          rw [kept _ fun later mem same => differ later mem same.symm]
          simp [Network.setNode]
        · exact spawned other there
      · intro peer away
        rw [kept peer fun later mem => away later (List.mem_cons_of_mem _ mem)]
        have : peer ≠ m.id := (away m (by simp)).symm
        simp [Network.setNode, this]
      · exact fun peer there => registered peer (by simp [there])

/-- The members have different identifiers. -/
theorem pairwise_id_ne (d : Deployment) : d.members.Pairwise fun m o => m.id ≠ o.id :=
  d.apart.imp fun {m o} apart same =>
    apart m.id (by simp [Identity.all, Member.id]) o.id (by simp [Identity.all, Member.id])
      (congrArg PeerId.unqualified same)

/-- A deployment begins with a scene in which nothing has happened. -/
theorem exists_opening {ids : Nat → MessageId} {n : Network} (assembled : d.assemble ids = .ok n) :
    ∃ s : Scene, s.Opening d ∧ d.Reflects n s := by
  obtain ⟨spawned, kept, -⟩ := spawned_of_foldlM d.pairwise_id_ne assembled
  simp only [neighbours_wired, nodes_wired, OrderedMap.get?_empty] at spawned kept
  refine ⟨⟨fun peer => ((n.nodes.get? peer).map (·.engine)).getD default, 0⟩,
    ⟨?_, rfl⟩, ?_, ?_, ?_, ?_⟩
  · intro m mem
    simp [(spawned m mem).1, RelayNode.create]
  · intro m mem
    refine ⟨_, (spawned m mem).1, ?_, rfl, rfl, rfl, by simp [RelayNode.create], rfl⟩
    simp [(spawned m mem).1, RelayNode.create]
  · exact fun m mem => (spawned m mem).2
  · intro peer node found
    by_contra absent
    push Not at absent
    rw [kept peer absent] at found
    cases found
  · intro k there
    cases Multiset.notMem_zero k there

/-- What a run does to a network it does to a scene. -/
theorem Runs.reaches {ids : Nat → MessageId} {history : History} (runs : d.Runs ids history n) :
    ∃ s, d.Reaches history s ∧ d.Reflects n s := by
  obtain ⟨first, assembled, runs⟩ := runs
  induction runs with
  | refl =>
    obtain ⟨s, opening, reflects⟩ := exists_opening assembled
    exact ⟨s, .opening opening, reflects⟩
  | step prior step ih =>
    obtain ⟨s, reaches, reflects⟩ := ih
    rcases reflects.step step with ⟨rfl, reflects⟩ | ⟨deed, t, rfl, advance, reflects⟩
    · exact ⟨s, by simpa using reaches, reflects⟩
    · exact ⟨t, .advance reaches advance, reflects⟩

/-- When no inbox holds a frame, no message is in flight. -/
theorem Reflects.flight_eq_zero (reflects : d.Reflects n s) (silent : n.Silent) : s.flight = 0 := by
  refine Multiset.eq_zero_of_forall_notMem fun k there => ?_
  obtain ⟨m, mem, far⟩ := reflects.destined k there
  obtain ⟨node, found, stands⟩ := reflects.node m mem
  have arriving : k ∈ s.flight.filter (·.far = m.id) := Multiset.mem_filter.2 ⟨there, far.symm⟩
  rw [← stands.inbox, Multiset.mem_coe, List.mem_filterMap] at arriving
  obtain ⟨command, queued, brings⟩ := arriving
  have quiet := silent node
    (List.mem_map.2 ⟨(m.id, node), OrderedMap.get?_eq_some_iff.1 found, rfl⟩) command queued
  unfold Command.packet? at brings
  split at brings
  · cases quiet
  · cases brings

end Deployment

end TrustMesh
