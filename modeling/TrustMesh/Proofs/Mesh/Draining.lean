import TrustMesh.Proofs.Mesh.Accounting
import TrustMesh.Proofs.Mesh.Service

/-!
# Reading the events of one peer

Who waits for the events of a peer lets the nodes take turns and takes the events whenever
all nodes are idle, until there are none (`Network.drain`). `Network.Drains` has the steps of
this, with the deeds that are done and the events that are taken; nothing is started
meanwhile.

No event is lost or told twice (`Drains.accounts`). If the deeds, the messages and the events
are bounded, then with enough steps nobody has anything left to do and all events were taken
(`exists_drains_settled`).
-/

namespace TrustMesh

open Std

/-- The node with more commands at the end of its inbox. -/
def RelayNode.receive (n : RelayNode) (commands : List Command) : RelayNode :=
  { n with inbox := n.inbox ++ commands }

namespace RelayNode

variable {n : RelayNode}

@[simp] theorem receive_nil (n : RelayNode) : n.receive [] = n := by
  simp [receive]

@[simp] theorem receive_receive (n : RelayNode) (front back : List Command) :
    (n.receive front).receive back = n.receive (front ++ back) := by
  simp [receive]

@[simp] theorem unread_receive (n : RelayNode) (commands : List Command) :
    (n.receive commands).unread = n.unread := rfl

/-- What a free node does adds its event to those that wait to be taken. -/
theorem unread_act (free : n.waiting = none) (directory : Directory) (id : MessageId) :
    (n.act directory id).node.unread = n.unread ++ (n.act directory id).event.toList := by
  unfold act
  cases n.inbox with
  | nil => simp
  | cons command rest =>
    cases command with
    | deliver sender frame =>
      have heard := execute_deliver (n := { n with inbox := rest }) free directory id sender frame
      refine heard.unread.trans (congrArg (n.unread ++ Option.toList ·) ?_)
      simp only [execute]
      split
      · rename_i told
        exact told
      · rename_i quiet
        exact quiet
    | _ => simp [execute, unread]

/-- An event waits only behind others that can be taken, and there is room for one at least. -/
structure Patient (n : RelayNode) : Prop where
  room : 0 < n.engine.settings.eventBuffer
  behind : n.waiting.isSome → n.events ≠ []

theorem Patient.act (patient : n.Patient) (free : n.waiting = none) (directory : Directory)
    (id : MessageId) : (n.act directory id).node.Patient := by
  unfold RelayNode.act
  cases n.inbox with
  | nil => exact patient
  | cons command rest =>
    cases command with
    | deliver sender frame =>
      have heard := execute_deliver (n := { n with inbox := rest }) free directory id sender frame
      have room : 0 < (n.engine.handleFrame ⟨directory, n.oracle⟩ sender
          frame).engine.settings.eventBuffer := by
        unfold Engine.handleFrame
        split
        · rw [Engine.handle_keeps.settings]
          exact patient.room
        · exact patient.room
      exact ⟨heard.engine ▸ room, heard.patient room⟩
    | start ticket exchange =>
      have kept : (n.engine.start ⟨directory, n.oracle⟩ id exchange).engine.settings =
        n.engine.settings := Engine.start_keeps.settings
      exact ⟨by simpa only [execute, kept] using patient.room, patient.behind⟩
    | shutdown => exact ⟨patient.room, patient.behind⟩

end RelayNode

namespace Network

variable {first n next m : Network} {peer head q : PeerId} {node : RelayNode} {deed : Deed}
  {h k : History} {told later : List Event}

/-- The events of a peer that nobody has taken. -/
def unread (n : Network) (peer : PeerId) : List Event :=
  ((n.nodes.get? peer).map RelayNode.unread).getD []

/-- What happens while the events of a peer are read: the node at the head of the queue does the first
command of its inbox, or it has nothing to do and leaves the queue, or the events are taken. -/
inductive Drains (peer : PeerId) (first : Network) : History → List Event → Network → Prop where
  | refl : Drains peer first [] [] first
  | act {n : Network} {h : History} {told : List Event} {head : PeerId} {rest : List PeerId}
      {deed : Deed} (prior : Drains peer first h told n) (queue : n.queue = head :: rest)
      (busy : n.busy head = true) (done : n.deed? head = some deed) :
      Drains peer first (h ++ [deed]) told (n.act head)
  | skip {n : Network} {h : History} {told : List Event} {head : PeerId} {rest : List PeerId}
      (prior : Drains peer first h told n) (queue : n.queue = head :: rest)
      (idle : n.busy head = false) : Drains peer first h told { n with queue := rest }
  | collect {n : Network} {h : History} {told : List Event} (prior : Drains peer first h told n) :
      Drains peer first h (told ++ (n.collect peer).1) (n.collect peer).2

theorem Drains.trans (before : Drains peer first h told n) (after : Drains peer n k later m) :
    Drains peer first (h ++ k) (told ++ later) m := by
  induction after with
  | refl => simpa using before
  | act prior queue busy done ih => simpa using ih.act queue busy done
  | skip prior queue idle ih => exact ih.skip queue idle
  | collect prior ih => simpa using ih.collect

/-- Reading the events of a peer is a run. -/
theorem Drains.runs (drains : Drains peer first h told n) : first.Runs h n := by
  induction drains with
  | refl => exact .refl
  | @act n h told head rest deed prior queue busy done ih =>
    have act : n.Step [deed] ((n.promote head 0).act head) :=
      .act (by rwa [promote_zero]) (by rwa [promote_zero])
    rw [promote_zero] at act
    exact ih.step act
  | skip prior queue idle ih => simpa using ih.step .reschedule
  | collect prior ih => simpa using ih.step .collect

/-! ## Turns -/

/-- Frames were put into some inboxes, and the peers that got one are in the queue. -/
structure Receives (n next : Network) : Prop where
  node : ∀ peer, ∃ frames : List Command,
    next.nodes.get? peer = (n.nodes.get? peer).map (·.receive frames) ∧
      (∀ command ∈ frames, command.isDelivery = true) ∧ (frames = [] ∨ peer ∈ next.queue)
  queue : n.queue ⊆ next.queue

theorem Receives.refl (n : Network) : n.Receives n :=
  ⟨fun _ => ⟨[], by simp, by simp, .inl rfl⟩, List.Subset.refl _⟩

theorem Receives.trans (before : n.Receives m) (after : m.Receives next) : n.Receives next := by
  refine ⟨fun peer => ?_, fun _ there => after.queue (before.queue there)⟩
  obtain ⟨front, found, deliveries, queued⟩ := before.node peer
  obtain ⟨back, found', deliveries', queued'⟩ := after.node peer
  refine ⟨front ++ back, ?_, ?_, ?_⟩
  · rw [found', found, Option.map_map]
    congr 1
    funext node
    exact node.receive_receive front back
  · intro command there
    exact (List.mem_append.1 there).elim (deliveries command) (deliveries' command)
  · rcases queued with rfl | there
    · exact queued'
    · exact .inr (after.queue there)

theorem mem_queue_enqueue : q ∈ (n.enqueue peer).queue ↔ q ∈ n.queue ∨ q = peer := by
  unfold enqueue
  split
  · rename_i there
    exact ⟨.inl, fun either => either.elim id fun same => same ▸ there⟩
  · simp

theorem length_queue_enqueue_le : (n.enqueue peer).queue.length ≤ n.queue.length + 1 := by
  unfold enqueue
  split
  · exact Nat.le_succ _
  · simp

/-- Routing a frame puts it into the inbox at the far end of its link, or does nothing. -/
theorem route_cases (n : Network) (directory : Directory) (o : Dispatch) :
    n.route directory o = n ∨ ∃ node, n.nodes.get? o.link.far = some node ∧ n.route directory o =
      (n.setNode o.link.far (node.receive [.deliver (some o.link.near) o.frame])).enqueue
        o.link.far := by
  unfold route post submit RelayNode.submit
  split
  · cases found : n.nodes.get? o.link.far with
    | none => exact .inl rfl
    | some node =>
      cases alive : node.alive with
      | false => exact .inl (by simp [alive])
      | true => exact .inr ⟨node, rfl, by simp [alive, RelayNode.receive]⟩
  · exact .inl rfl

theorem receives_route (n : Network) (directory : Directory) (o : Dispatch) :
    n.Receives (n.route directory o) ∧
      (n.route directory o).queue.length ≤ n.queue.length + 1 := by
  rcases n.route_cases directory o with same | ⟨node, found, posted⟩
  · rw [same]
    exact ⟨.refl n, Nat.le_succ _⟩
  · rw [posted]
    refine ⟨⟨fun peer => ?_, fun q there => mem_queue_enqueue.2 (.inl there)⟩,
      length_queue_enqueue_le⟩
    rw [Deployment.nodes_enqueue, setNode, OrderedMap.get?_insert]
    by_cases own : peer = o.link.far
    · subst own
      exact ⟨[.deliver (some o.link.near) o.frame], by simp [found], by simp [Command.isDelivery],
        .inr (mem_queue_enqueue.2 (.inr rfl))⟩
    · exact ⟨[], by simp [own], by simp, .inl rfl⟩

theorem receives_routeAll (n : Network) (directory : Directory) (offered : List Dispatch) :
    n.Receives (offered.foldl (route directory) n) ∧
      (offered.foldl (route directory) n).queue.length ≤ n.queue.length + offered.length := by
  induction offered generalizing n with
  | nil => exact ⟨.refl n, Nat.le_refl _⟩
  | cons o rest ih =>
    obtain ⟨first, one⟩ := n.receives_route directory o
    obtain ⟨others, more⟩ := ih (n.route directory o)
    refine ⟨first.trans others, ?_⟩
    rw [List.foldl_cons, List.length_cons]
    omega

/-- A peer that is busy has a node that waits for nothing. -/
theorem exists_of_busy (busy : n.busy peer = true) :
    ∃ node, n.nodes.get? peer = some node ∧ node.waiting = none := by
  unfold Network.busy at busy
  split at busy
  · cases busy
  · rename_i node found
    simp only [RelayNode.busy, Bool.and_eq_true, Option.isNone_iff_eq_none] at busy
    exact ⟨node, found, busy.1.2⟩

/-- What a node does at its turn. -/
def turn (n : Network) (peer : PeerId) (node : RelayNode) : RelayNode.Action :=
  node.act (n.directory peer node.neighbours) (n.ids n.started)

theorem deed_eq_turn (found : n.nodes.get? head = some node) (done : n.deed? head = some deed) :
    deed.peer = head ∧ deed.offered = (n.turn head node).offered ∧
      deed.event = (n.turn head node).event := by
  simp only [deed?, found, Option.bind_eq_bind, Option.bind_some, Option.bind_eq_some_iff,
    Option.pure_def] at done
  obtain ⟨command, -, made⟩ := done
  cases made
  exact ⟨rfl, rfl, rfl⟩

/-- A turn changes the node of the peer, and puts frames into inboxes. -/
theorem receives_act (found : n.nodes.get? head = some node) :
    (n.setNode head (n.turn head node).node).Receives (n.act head) ∧
      (n.act head).queue.length ≤ n.queue.length + (n.turn head node).offered.length := by
  obtain ⟨⟨got, queue⟩, bound⟩ := receives_routeAll { n.setNode head (n.turn head node).node with
    started := if (n.turn head node).usedId then n.started + 1 else n.started }
    (n.directory head node.neighbours) (n.turn head node).offered
  simp only [act, found]
  exact ⟨⟨got, queue⟩, bound⟩

/-- The node of any peer after a turn. -/
theorem get?_act (found : n.nodes.get? head = some node) (q : PeerId) :
    ∃ frames : List Command, (n.act head).nodes.get? q =
        (if q = head then some (n.turn head node).node else n.nodes.get? q).map (·.receive frames) ∧
      (∀ command ∈ frames, command.isDelivery = true) ∧ (frames = [] ∨ q ∈ (n.act head).queue) := by
  obtain ⟨frames, got, rest⟩ := (receives_act found).1.node q
  refine ⟨frames, got.trans ?_, rest⟩
  rw [setNode, OrderedMap.get?_insert]

theorem queue_subset_act (n : Network) (head : PeerId) : n.queue ⊆ (n.act head).queue := by
  cases found : n.nodes.get? head with
  | none => simp [act, found]
  | some node => exact (receives_act found).1.queue

/-- The queue grows by the peers that messages are offered to at most. -/
theorem length_queue_act_le (busy : n.busy head = true) (done : n.deed? head = some deed) :
    (n.act head).queue.length ≤ n.queue.length + History.sent [deed] := by
  obtain ⟨node, found, -⟩ := exists_of_busy busy
  obtain ⟨-, offered, -⟩ := deed_eq_turn found done
  have bound := (receives_act found).2
  rw [← offered] at bound
  simpa [History.sent] using bound

/-- The node of any peer after the events of one were taken. -/
theorem get?_collect (n : Network) (peer q : PeerId) : (n.collect peer).2.nodes.get? q =
    if q = peer then (n.nodes.get? peer).map (·.collect.2) else n.nodes.get? q := by
  unfold Network.collect
  cases found : n.nodes.get? peer with
  | none =>
    by_cases own : q = peer
    · simp [own, found]
    · simp [own]
  | some node =>
    have changed : (n.setNode peer node.collect.2).nodes.get? q =
        if q = peer then some node.collect.2 else n.nodes.get? q := OrderedMap.get?_insert ..
    simp only
    split
    · rw [Deployment.nodes_enqueue, changed]
      simp
    · rw [changed]
      simp

theorem queue_subset_collect (n : Network) (peer : PeerId) : n.queue ⊆ (n.collect peer).2.queue := by
  unfold Network.collect
  split
  · exact List.Subset.refl _
  · simp only
    split
    · exact fun q there => mem_queue_enqueue.2 (.inl there)
    · exact List.Subset.refl _

theorem length_queue_collect_le (n : Network) (peer : PeerId) :
    (n.collect peer).2.queue.length ≤ n.queue.length + 1 := by
  unfold Network.collect
  split
  · exact Nat.le_succ _
  · simp only
    split
    · exact length_queue_enqueue_le
    · exact Nat.le_succ _

/-- The events that are taken were those in the buffer. -/
theorem collect_fst (n : Network) (peer : PeerId) :
    (n.collect peer).1 = ((n.nodes.get? peer).map RelayNode.events).getD [] := by
  unfold Network.collect
  cases n.nodes.get? peer <;> rfl

/-! ## Every event is taken once -/

theorem unread_act (busy : n.busy head = true) (done : n.deed? head = some deed) (q : PeerId) :
    (n.act head).unread q = n.unread q ++ History.emitted [deed] q := by
  obtain ⟨node, found, free⟩ := exists_of_busy busy
  obtain ⟨peer, -, event⟩ := deed_eq_turn found done
  obtain ⟨frames, got, -⟩ := get?_act found q
  rw [unread, got, Option.map_map, History.emitted_singleton, peer, event, unread]
  by_cases own : q = head
  · subst own
    simp [found, turn, Function.comp_def, RelayNode.unread_act free]
  · simp [own, Ne.symm own, Function.comp_def]

theorem unread_collect (n : Network) (peer q : PeerId) :
    n.unread q = (if q = peer then (n.collect peer).1 else []) ++ (n.collect peer).2.unread q := by
  rw [unread, unread, get?_collect, collect_fst]
  by_cases own : q = peer
  · subst own
    cases n.nodes.get? q with
    | none => simp
    | some node => simp [RelayNode.unread, RelayNode.collect]
  · simp [own]

/-- The events of a peer before and those that it emitted are those that were taken and those that were
not. -/
theorem Drains.accounts (drains : Drains peer first h told n) (q : PeerId) :
    first.unread q ++ h.emitted q = (if q = peer then told else []) ++ n.unread q := by
  induction drains with
  | refl => simp [History.emitted]
  | act prior queue busy done ih =>
    rw [History.emitted_append, unread_act busy done, ← List.append_assoc, ih, List.append_assoc]
  | skip prior queue idle ih => exact ih
  | @collect n h told prior ih =>
    rw [ih, unread_collect n peer q]
    by_cases own : q = peer
    · simp [own]
    · simp [own]

/-! ## Nobody is forgotten -/

/-- Every peer that can do something is in the queue, and an event waits only behind others. -/
structure Attentive (n : Network) : Prop where
  queued : ∀ peer, n.busy peer = true → peer ∈ n.queue
  patient : ∀ peer node, n.nodes.get? peer = some node → node.Patient

theorem busy_congr (same : next.nodes.get? q = n.nodes.get? q) : next.busy q = n.busy q := by
  rw [busy, busy, same]

theorem Attentive.act (attentive : n.Attentive) (waits : head ∈ n.queue)
    (busy : n.busy head = true) : (n.act head).Attentive := by
  obtain ⟨node, found, free⟩ := exists_of_busy busy
  constructor
  · intro q active
    obtain ⟨frames, got, -, queued⟩ := get?_act found q
    rcases queued with rfl | there
    · refine queue_subset_act n head ?_
      by_cases own : q = head
      · exact own ▸ waits
      · refine attentive.queued q (busy_congr ?_ ▸ active)
        simpa [own] using got
    · exact there
  · intro q final there
    obtain ⟨frames, got, -⟩ := get?_act found q
    rw [there] at got
    obtain ⟨before, earlier, rfl⟩ := Option.map_eq_some_iff.1 got.symm
    have patient : before.Patient := by
      by_cases own : q = head
      · rw [if_pos own] at earlier
        cases earlier
        exact (attentive.patient head node found).act free ..
      · rw [if_neg own] at earlier
        exact attentive.patient q before earlier
    exact ⟨patient.room, patient.behind⟩

theorem Attentive.skip {rest : List PeerId} (attentive : n.Attentive) (queue : n.queue = head :: rest)
    (idle : n.busy head = false) : Attentive { n with queue := rest } := by
  refine ⟨fun q active => ?_, attentive.patient⟩
  have active : n.busy q = true := active
  have there := attentive.queued q active
  rw [queue] at there
  refine (List.mem_cons.1 there).resolve_left fun own => ?_
  rw [own, idle] at active
  cases active

theorem Attentive.collect (attentive : n.Attentive) (peer : PeerId) :
    (n.collect peer).2.Attentive := by
  constructor
  · intro q active
    by_cases own : q = peer
    · subst own
      cases found : n.nodes.get? q with
      | none =>
        have gone : (n.collect q).2.nodes.get? q = none := by simp [get?_collect, found]
        rw [busy, gone] at active
        cases active
      | some node =>
        cases waits : node.waiting with
        | none =>
          refine queue_subset_collect n q (attentive.queued q ?_)
          have now : (n.collect q).2.nodes.get? q = some node.collect.2 := by simp [get?_collect, found]
          rw [busy, now] at active
          rw [busy, found]
          simpa [RelayNode.busy, RelayNode.collect, waits] using active
        | some event =>
          simp only [Network.collect, found, waits, Option.isSome_some, if_true]
          exact mem_queue_enqueue.2 (.inr rfl)
    · refine queue_subset_collect n peer (attentive.queued q (busy_congr ?_ ▸ active))
      simp [get?_collect, own]
  · intro q final there
    rw [get?_collect] at there
    split at there
    · obtain ⟨before, found, rfl⟩ := Option.map_eq_some_iff.1 there
      refine ⟨(attentive.patient peer before found).room, fun waits => ?_⟩
      cases waits
    · exact attentive.patient q final there

theorem Drains.attentive (drains : Drains peer first h told n) (attentive : first.Attentive) :
    n.Attentive := by
  induction drains with
  | refl => exact attentive
  | act prior queue busy done ih => exact ih.act (by simp [queue]) busy
  | skip prior queue idle ih => exact ih.skip queue idle
  | collect prior ih => exact ih.collect _

/-! ## Enough steps -/

/-- The turns that nodes take are a part of reading events. -/
theorem Drains.turns (drains : Drains peer first h told n) (limit : Nat) :
    Drains peer first (h ++ n.deeds limit) told (n.run limit) := by
  induction limit generalizing h n with
  | zero => simpa [deeds, run] using drains
  | succ limit ih =>
    unfold deeds run advance?
    cases waiting : n.queue with
    | nil => simpa using drains
    | cons head rest =>
      simp only
      by_cases busy : n.busy head = true
      · obtain ⟨deed, done⟩ := Option.isSome_iff_exists.1 (isSome_deed?_of_busy busy)
        simpa [busy, done] using ih (drains.act waiting busy done)
      · simpa [busy] using ih (drains.skip waiting (Bool.eq_false_iff.2 busy))

/-- Turns end with an empty queue, or every step was used. -/
theorem queue_run (limit : Nat) (n : Network) : (n.run limit).queue = [] ∨
    limit + (n.run limit).queue.length ≤
      n.queue.length + (n.deeds limit).length + (n.deeds limit).sent := by
  induction limit generalizing n with
  | zero => exact .inr (by simp [run]; omega)
  | succ limit ih =>
    unfold deeds run advance?
    cases waiting : n.queue with
    | nil => exact .inl waiting
    | cons head rest =>
      by_cases busy : n.busy head = true
      · obtain ⟨deed, done⟩ := Option.isSome_iff_exists.1 (isSome_deed?_of_busy busy)
        have grows := length_queue_act_le busy done
        simp only [busy, done, if_true, Option.toList_some, List.length_append,
          List.length_singleton, History.sent_append]
        rw [waiting] at grows
        exact (ih (n.act head)).imp_right (by omega)
      · simp only [busy, Bool.false_eq_true, if_false, List.length_cons]
        have later : _ ∨ limit + _ ≤ rest.length + _ + _ := ih { n with queue := rest }
        exact later.imp_right (by omega)

/-- The events of a peer that reading gives. -/
def taken (steps rounds : Nat) (peer : PeerId) (n : Network) : List Event :=
  ((n.drain steps [peer] rounds).1.get? peer).getD []

theorem taken_succ (steps rounds : Nat) (peer : PeerId) (n : Network) :
    n.taken steps (rounds + 1) peer = if ((n.run steps).collect peer).1 = [] then []
      else ((n.run steps).collect peer).1 ++
        ((n.run steps).collect peer).2.taken steps rounds peer := by
  simp only [taken, drain, List.foldl_cons, List.foldl_nil]
  generalize (n.run steps).collect peer = now
  obtain ⟨_ | ⟨event, rest⟩, next⟩ := now
  · rfl
  · have filled : ¬ (OrderedMap.empty.insert peer (event :: rest) :
        OrderedMap PeerId (List Event)).entries.isEmpty := by
      intro none
      have there : (peer, event :: rest) ∈ (OrderedMap.empty.insert peer (event :: rest) :
          OrderedMap PeerId (List Event)).entries :=
        OrderedMap.get?_eq_some_iff.1 (by simp)
      rw [List.isEmpty_iff.1 none] at there
      cases there
    simp only [List.isEmpty_cons, Bool.false_eq_true, if_false, filled, reduceCtorEq]
    rw [OrderedMap.get?_mergeWith, OrderedMap.get?_insert, if_pos rfl]
    cases (drain steps [peer] rounds next).1.get? peer <;> simp

/-- Reading the events of a peer ends when the queue is empty and no event is there, unless so many
events were taken as there are rounds or every step of a round was used. -/
theorem exists_drains (steps rounds : Nat) (peer : PeerId) (n : Network) :
    ∃ h m, Drains peer n h (n.taken steps rounds peer) m ∧
      ((m.queue = [] ∧ (m.collect peer).1 = []) ∨ rounds ≤ (n.taken steps rounds peer).length ∨
        steps ≤ n.queue.length + h.length + h.sent + (n.taken steps rounds peer).length) := by
  induction rounds generalizing n with
  | zero => exact ⟨[], n, .refl, .inr (.inl (Nat.zero_le _))⟩
  | succ rounds ih =>
    have turns : Drains peer n (n.deeds steps) [] (n.run steps) := Drains.refl.turns steps
    have used := n.queue_run steps
    rw [taken_succ]
    split
    · rename_i nothing
      refine ⟨_, _, turns, used.imp (fun empty => ⟨empty, nothing⟩) fun used => .inr ?_⟩
      simp only [List.length_nil]
      omega
    · rename_i something
      have filled := List.length_pos_iff.2 something
      obtain ⟨h, m, later, ends⟩ := ih ((n.run steps).collect peer).2
      have grows := (n.run steps).length_queue_collect_le peer
      refine ⟨_, m, turns.collect.trans later, ends.imp_right ?_⟩
      simp only [List.length_append, History.sent_append]
      rcases used with empty | used
      · rw [empty, List.length_nil] at grows
        exact Or.imp (by omega) (by omega)
      · exact fun _ => .inr (by omega)

/-- If deeds, messages and events are bounded, then reading with enough steps ends when nobody can do
anything and every event of the peer was taken. -/
theorem exists_drains_settled (attentive : n.Attentive) {bound limit : Nat}
    (bounded : ∀ h told m, Drains peer n h told m → h.length + h.sent + told.length ≤ bound)
    (enough : n.queue.length + bound < limit) :
    ∃ h m, Drains peer n h (n.taken limit limit peer) m ∧ (∀ q, m.busy q = false) ∧
      m.unread peer = [] := by
  obtain ⟨h, m, drains, ends⟩ := n.exists_drains limit limit peer
  have within := bounded _ _ _ drains
  have after := drains.attentive attentive
  obtain ⟨queue, nothing⟩ : m.queue = [] ∧ (m.collect peer).1 = [] := by
    rcases ends with settled | many | used
    · exact settled
    · omega
    · omega
  refine ⟨h, m, drains, fun q => ?_, ?_⟩
  · refine Bool.eq_false_iff.2 fun active => ?_
    have there := after.queued q active
    rw [queue] at there
    cases there
  · rw [collect_fst] at nothing
    rw [unread]
    cases found : m.nodes.get? peer with
    | none => rfl
    | some node =>
      rw [found] at nothing
      have empty : node.events = [] := nothing
      have quiet : node.waiting = none := Option.not_isSome_iff_eq_none.1 fun waits =>
        (after.patient peer node found).behind waits empty
      simp [RelayNode.unread, empty, quiet]

end Network

end TrustMesh
