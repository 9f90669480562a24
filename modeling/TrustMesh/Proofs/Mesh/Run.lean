import TrustMesh.Proofs.Mesh.Deployment
import TrustMesh.Proofs.Relay.Engine

/-!
# Runs of a network

The relation `Network.Step`, rather than the turns that `Network.run` lets nodes take, is
authoritative here. At any time an application may start an exchange or take events, and
any node that can do something may do any command of its inbox. `Network.Runs` keeps the
deeds of all nodes in the order in which they were done, so what was started, told and
answered is read off the history. `Network.Runs.turns` states that turns are such a run.

Nothing stops a node, and nothing but a node sends frames.
-/

namespace TrustMesh

open Std

/-- The node with the command at some position of its inbox moved to the front. -/
def RelayNode.promote (n : RelayNode) (position : Nat) : RelayNode :=
  match n.inbox[position]? with
  | some command => { n with inbox := command :: n.inbox.eraseIdx position }
  | none => n

/-- Whether a command brings a frame. -/
def Command.isDelivery : Command → Bool
  | .deliver .. => true
  | _ => false

/-- What a node did: the command, the identifier it was given for an exchange, the messages that it
offered and the event that it had for its application. -/
structure Deed where
  peer : PeerId
  command : Command
  id : MessageId
  offered : List Dispatch
  event : Option Event

namespace Deed

/-- The exchange that was started, with its identifier. -/
def started? (d : Deed) : Option (MessageId × Exchange) :=
  match d.command with
  | .start _ exchange => some (d.id, exchange)
  | _ => none

/-- The message that was received. -/
def received? (d : Deed) : Option Message :=
  match d.command with
  | .deliver _ frame => (Message.decode frame).toOption
  | _ => none

/-- A deed that came to nothing: no exchange was started, nothing was offered and nothing told. -/
structure Idle (d : Deed) : Prop where
  started : d.started? = none
  offered : d.offered = []
  event : d.event = none

end Deed

/-- The deeds of all nodes, the earliest first. -/
abbrev History := List Deed

namespace History

/-- The identifiers of the exchanges that were started. -/
def startedIds (h : History) : List MessageId := h.filterMap fun d => d.started?.map (·.1)

/-- The identifiers of the compliance queries that a peer started. -/
def queriesOf (h : History) (peer : PeerId) : List MessageId :=
  h.filterMap fun d =>
    match d.started? with
    | some (id, .comply _) => if d.peer = peer then some id else none
    | _ => none

/-- A peer started an exchange under an identifier. -/
def Started (h : History) (peer : PeerId) (id : MessageId) (exchange : Exchange) : Prop :=
  ∃ d ∈ h, d.peer = peer ∧ d.started? = some (id, exchange)

/-- The events that a peer had for its application. -/
def emitted (h : History) (peer : PeerId) : List Event :=
  h.filterMap fun d => if d.peer = peer then d.event else none

/-- The messages that brought a peer to tell an event of some sort. -/
def accepted (h : History) (peer : PeerId) (sort : Event → Bool) : List Message :=
  h.filterMap fun d => if d.peer = peer ∧ d.event.any sort then d.received? else none

/-- The answers in an exchange that a peer gave of its own: it was not an answer that it received. -/
def replies (h : History) (peer : PeerId) (id : MessageId) : List Message :=
  h.flatMap fun d =>
    if d.peer = peer ∧ d.received?.all (!·.body.isAnswer) then
      (d.offered.map (·.message)).filter fun m => m.id = id ∧ m.body.isAnswer
    else []

/-- Every message that was offered in an exchange is read from its frame as it was. -/
def Legible (h : History) (id : MessageId) : Prop :=
  ∀ d ∈ h, ∀ o ∈ d.offered, o.message.id = id → Message.decode o.frame = .ok o.message

end History

namespace Network

/-- The network with the command at some position of an inbox moved to the front. -/
def promote (n : Network) (peer : PeerId) (position : Nat) : Network :=
  match n.nodes.get? peer with
  | some node => n.setNode peer (node.promote position)
  | none => n

/-- What a peer does when it does the first command of its inbox. -/
def deed? (n : Network) (peer : PeerId) : Option Deed := do
  let node ← n.nodes.get? peer
  let command ← node.inbox.head?
  let action := node.act (n.directory peer node.neighbours) (n.ids n.started)
  return ⟨peer, command, n.ids n.started, action.offered, action.event⟩

/-- One step of a network, with the deed that was done: an application starts an exchange or takes
the events of a node, a node that can do something does any command of its inbox, or the queue of
nodes changes. -/
inductive Step : Network → List Deed → Network → Prop where
  | start {n next : Network} {peer : PeerId} {exchange : Exchange} {ticket : Nat}
      (taken : n.start peer exchange = .ok (ticket, next)) : Step n [] next
  | collect {n : Network} {peer : PeerId} : Step n [] (n.collect peer).2
  | act {n : Network} {peer : PeerId} {position : Nat} {deed : Deed}
      (busy : (n.promote peer position).busy peer = true)
      (done : (n.promote peer position).deed? peer = some deed) :
      Step n [deed] ((n.promote peer position).act peer)
  | reschedule {n : Network} {queue : List PeerId} : Step n [] { n with queue }

/-- Zero or more steps, with all deeds that were done. -/
inductive Runs : Network → History → Network → Prop where
  | refl {n : Network} : Runs n [] n
  | step {first n next : Network} {history : History} {deeds : List Deed}
      (prior : Runs first history n) (step : Step n deeds next) :
      Runs first (history ++ deeds) next

/-- The deeds that are done while nodes take turns. -/
def deeds : Nat → Network → History
  | 0, _ => []
  | limit + 1, n =>
    match n.queue with
    | [] => []
    | peer :: rest =>
      if n.busy peer then (n.deed? peer).toList ++ deeds limit (n.act peer)
      else deeds limit { n with queue := rest }

/-- No frame is in flight: no inbox holds one. -/
def Silent (n : Network) : Prop :=
  ∀ node ∈ n.nodes.values, ∀ command ∈ node.inbox, command.isDelivery = false

instance (n : Network) : Decidable n.Silent :=
  inferInstanceAs (Decidable (∀ _ ∈ _, _))

end Network

/-- A network in this state is reached from a deployment by these deeds. -/
def Deployment.Runs (d : Deployment) (ids : Nat → MessageId) (history : History) (n : Network) :
    Prop :=
  ∃ first, d.assemble ids = .ok first ∧ first.Runs history n

namespace Event

/-- The event tells the route that a trace found. -/
def isRoute (id : MessageId) : Event → Bool
  | .routeDiscovered own .. => own = id
  | _ => false

/-- The event tells that a gossip arrived. -/
def isGossip (id : MessageId) : Event → Bool
  | .gossipReceived own .. => own = id
  | _ => false

/-- The event tells that a compliance query was answered. -/
def isCompliance (id : MessageId) : Event → Bool
  | .complianceUpdated own .. => own = id
  | _ => false

theorem id_of_isRoute {event : Event} {id : MessageId} (sorted : event.isRoute id = true) :
    event.id = id := by
  cases event with
  | routeDiscovered own => exact of_decide_eq_true sorted
  | _ => cases sorted

theorem id_of_isGossip {event : Event} {id : MessageId} (sorted : event.isGossip id = true) :
    event.id = id := by
  cases event with
  | gossipReceived own => exact of_decide_eq_true sorted
  | _ => cases sorted

theorem id_of_isCompliance {event : Event} {id : MessageId}
    (sorted : event.isCompliance id = true) : event.id = id := by
  cases event with
  | complianceUpdated own => exact of_decide_eq_true sorted
  | _ => cases sorted

end Event

/-! ## Turns -/

namespace Network

/-- The first command of an inbox is at the front already. -/
theorem promote_zero (n : Network) (peer : PeerId) : n.promote peer 0 = n := by
  unfold promote
  split
  · rename_i node found
    have same : node.promote 0 = node := by
      unfold RelayNode.promote
      split
      · rename_i command first
        obtain ⟨_, _, _, inbox, _⟩ := node
        cases inbox with
        | nil => cases first
        | cons head rest =>
          cases first
          rfl
      · rfl
    have kept : n.nodes.insert peer node = n.nodes := by
      refine OrderedMap.ext_get? fun other => ?_
      rw [OrderedMap.get?_insert]
      split
      · rename_i own
        rw [own, found]
      · rfl
    rw [same, setNode, kept]
  · rfl

theorem isSome_deed?_of_busy {n : Network} {peer : PeerId} (busy : n.busy peer = true) :
    (n.deed? peer).isSome := by
  unfold Network.busy at busy
  split at busy
  · cases busy
  · rename_i node found
    simp only [RelayNode.busy, Bool.and_eq_true, Bool.not_eq_true'] at busy
    cases inbox : node.inbox with
    | nil => simp [inbox] at busy
    | cons command rest => simp [deed?, found, inbox]

theorem peer_of_deed? {n : Network} {peer : PeerId} {deed : Deed} (done : n.deed? peer = some deed) :
    deed.peer = peer := by
  simp only [deed?, Option.bind_eq_bind, Option.bind_eq_some_iff, Option.pure_def] at done
  obtain ⟨node, -, command, -, told⟩ := done
  cases told
  rfl

/-- Every deed of a run is the first command of an inbox as it was at that point of the run. -/
theorem Runs.exists_deed {first n : Network} {h : History} (runs : first.Runs h n) {deed : Deed}
    (there : deed ∈ h) :
    ∃ front rest before position, h = front ++ deed :: rest ∧ first.Runs front before ∧
      (before.promote deed.peer position).deed? deed.peer = some deed := by
  induction runs with
  | refl => cases there
  | @step n next h deeds prior step ih =>
    rcases List.mem_append.1 there with before | last
    · obtain ⟨front, rest, between, position, rfl, runs, done⟩ := ih before
      exact ⟨front, rest ++ deeds, between, position, List.append_assoc .., runs, done⟩
    · cases step with
      | @act peer position other busy done =>
        cases List.mem_singleton.1 last
        have own := peer_of_deed? done
        exact ⟨h, _, n, position, rfl, prior, own ▸ done⟩
      | _ => cases last

/-- The turns that nodes take are a run. -/
theorem Runs.turns {first n : Network} {history : History} (runs : first.Runs history n)
    (limit : Nat) : first.Runs (history ++ n.deeds limit) (n.run limit) := by
  induction limit generalizing history n with
  | zero => simpa [deeds, run] using runs
  | succ limit ih =>
    unfold deeds run advance?
    cases waiting : n.queue with
    | nil => simpa using runs
    | cons peer rest =>
      simp only
      by_cases busy : n.busy peer = true
      · obtain ⟨deed, done⟩ := Option.isSome_iff_exists.1 (isSome_deed?_of_busy busy)
        have act : n.Step [deed] ((n.promote peer 0).act peer) :=
          .act (by rwa [promote_zero]) (by rwa [promote_zero])
        rw [promote_zero] at act
        simpa [busy, done] using ih (runs.step act)
      · have skip : n.Step [] { n with queue := rest } := .reschedule
        simpa [busy] using ih (runs.step skip)

end Network

/-- What happens when one exchange is started in a deployment and nodes take turns, and the network
in the end. -/
def Deployment.trial (d : Deployment) (ids : Nat → MessageId) (peer : PeerId)
    (exchange : Exchange) (limit : Nat) : History × Network :=
  match d.assemble ids with
  | .error _ => ([], .empty ids)
  | .ok first =>
    match first.start peer exchange with
    | .error _ => ([], first)
    | .ok (_, n) => (n.deeds limit, n.run limit)

/-- A trial in a deployment that can be assembled is a run. -/
theorem Deployment.runs_trial (d : Deployment) (ids : Nat → MessageId) (peer : PeerId)
    (exchange : Exchange) (limit : Nat) (usable : (d.assemble ids).isOk = true) :
    d.Runs ids (d.trial ids peer exchange limit).1 (d.trial ids peer exchange limit).2 := by
  unfold trial
  cases assembled : d.assemble ids with
  | error fault =>
    rw [assembled] at usable
    cases usable
  | ok first =>
    simp only
    split
    · exact ⟨first, assembled, .refl⟩
    · rename_i ticket next started
      have begun : first.Runs [] next := .step .refl (.start started)
      exact ⟨first, assembled, begun.turns limit⟩

/-- What happens when some exchanges are started in a deployment before nodes take turns, and the
network in the end. -/
def Deployment.session (d : Deployment) (ids : Nat → MessageId) (tasks : List (PeerId × Exchange))
    (limit : Nat) : History × Network :=
  match d.assemble ids with
  | .error _ => ([], .empty ids)
  | .ok first =>
    let n := tasks.foldl (fun n task => ((n.start task.1 task.2).map (·.2)).toOption.getD n) first
    (n.deeds limit, n.run limit)

/-- A session in a deployment that can be assembled is a run. -/
theorem Deployment.runs_session (d : Deployment) (ids : Nat → MessageId)
    (tasks : List (PeerId × Exchange)) (limit : Nat) (usable : (d.assemble ids).isOk = true) :
    d.Runs ids (d.session ids tasks limit).1 (d.session ids tasks limit).2 := by
  have started : ∀ (tasks : List (PeerId × Exchange)) {first n : Network}, first.Runs [] n →
      first.Runs [] (tasks.foldl
        (fun n task => ((n.start task.1 task.2).map (·.2)).toOption.getD n) n) := by
    intro tasks
    induction tasks with
    | nil => exact fun runs => runs
    | cons task rest ih =>
      intro first n runs
      refine ih ?_
      cases taken : n.start task.1 task.2 with
      | error fault => simpa [taken, Except.map, Except.toOption] using runs
      | ok answer =>
        have begun : first.Runs [] answer.2 := runs.step (.start taken)
        simpa [taken, Except.map, Except.toOption] using begun
  unfold session
  cases assembled : d.assemble ids with
  | error fault =>
    rw [assembled] at usable
    cases usable
  | ok first => exact ⟨first, assembled, (started tasks .refl).turns limit⟩

/-- The member of a peer without aliases that holds nothing, with the standard settings except for
the deduplication of compliance queries. -/
def Member.plain (peer : PeerId) (complianceDedup : Bool) : Member :=
  ⟨⟨peer, .empty⟩, .scripted [.identity peer.text] .empty, { Settings.standard with complianceDedup }⟩

/-- Two plain members that are linked. -/
def Deployment.pair (complianceDedup : Bool) : Deployment where
  links := [(⟨"A"⟩, ⟨"B"⟩)]
  members := [.plain ⟨"A"⟩ complianceDedup, .plain ⟨"B"⟩ complianceDedup]
  spawned := by simp [Member.id, Member.plain]
  apart := by
    have differ : withoutNamespace "A" ≠ withoutNamespace "B" := by decide
    simp [Identity.Apart, Identity.all, Member.plain, OrderedSet.empty, PeerId.unqualified, differ]

theorem Deployment.edgeIdsDifferAs_pair (dedup : Bool) (read : PeerId → PeerId) :
    (pair dedup).EdgeIdsDifferAs read := by
  rintro a b x y (here | here) (there | there) -
  all_goals
    simp only [pair, List.mem_singleton, Prod.mk.injEq] at here there
    obtain ⟨rfl, rfl⟩ := here
    obtain ⟨rfl, rfl⟩ := there
    simp

/-- Three plain members that are linked in a ring and remember so many exchanges. -/
def Deployment.triangle (seenCapacity : Nat) : Deployment where
  links := [(⟨"A"⟩, ⟨"B"⟩), (⟨"B"⟩, ⟨"C"⟩), (⟨"C"⟩, ⟨"A"⟩)]
  members := ["A", "B", "C"].map fun name =>
    { Member.plain ⟨name⟩ false with settings := { Settings.standard with seenCapacity } }
  spawned := by simp [Member.id, Member.plain]
  apart := by
    have first : withoutNamespace "A" ≠ withoutNamespace "B" := by decide
    have second : withoutNamespace "A" ≠ withoutNamespace "C" := by decide
    have third : withoutNamespace "B" ≠ withoutNamespace "C" := by decide
    simp [Identity.Apart, Identity.all, Member.plain, OrderedSet.empty, PeerId.unqualified, first,
      second, third]

/-- A gossip from one node of the triangle to all of them. -/
def Deployment.news : PeerId × Exchange := (⟨"A"⟩, .gossip [⟨"A"⟩, ⟨"B"⟩, ⟨"C"⟩] .null)

/-! ## Histories that grow -/

namespace History

instance (h : History) (id : MessageId) : Decidable (h.Legible id) :=
  inferInstanceAs (Decidable (∀ d ∈ h, ∀ o ∈ d.offered, o.message.id = id → _))

instance (h : History) (peer : PeerId) (id : MessageId) (exchange : Exchange) :
    Decidable (h.Started peer id exchange) :=
  inferInstanceAs (Decidable (∃ d ∈ h, d.peer = peer ∧ d.started? = some (id, exchange)))

theorem Legible.earlier {h k : History} {id : MessageId} (legible : Legible (h ++ k) id) :
    h.Legible id := fun d mem => legible d (List.mem_append_left _ mem)

/-- What the last deed offers in an exchange is read as it was. -/
theorem Legible.read {h : History} {deed : Deed} {id : MessageId}
    (legible : Legible (h ++ [deed]) id) (own : ∀ o ∈ deed.offered, o.message.id = id) :
    ∀ o ∈ deed.offered, Message.decode o.frame = .ok o.message := fun o offer =>
  legible deed (by simp) o offer (own o offer)

@[simp] theorem startedIds_append (h k : History) :
    startedIds (h ++ k) = startedIds h ++ startedIds k := List.filterMap_append ..

@[simp] theorem queriesOf_append (h k : History) (peer : PeerId) :
    queriesOf (h ++ k) peer = queriesOf h peer ++ queriesOf k peer := List.filterMap_append ..

@[simp] theorem emitted_append (h k : History) (peer : PeerId) :
    emitted (h ++ k) peer = emitted h peer ++ emitted k peer := List.filterMap_append ..

@[simp] theorem accepted_append (h k : History) (peer : PeerId) (sort : Event → Bool) :
    accepted (h ++ k) peer sort = accepted h peer sort ++ accepted k peer sort :=
  List.filterMap_append ..

@[simp] theorem replies_append (h k : History) (peer : PeerId) (id : MessageId) :
    replies (h ++ k) peer id = replies h peer id ++ replies k peer id := List.flatMap_append ..

theorem emitted_singleton (deed : Deed) (peer : PeerId) :
    emitted [deed] peer = if deed.peer = peer then deed.event.toList else [] := by
  by_cases own : deed.peer = peer
  · cases event : deed.event with
    | none => simp [emitted, event]
    | some told => simp [emitted, own, event]
  · simp [emitted, own]

theorem mem_emitted {h : History} {peer : PeerId} {event : Event} :
    event ∈ h.emitted peer ↔ ∃ deed ∈ h, deed.peer = peer ∧ deed.event = some event := by
  simp [emitted]

/-- What was told before or is told by the last deed. -/
theorem mem_emitted_concat {h : History} {deed : Deed} {peer : PeerId} {event : Event} :
    event ∈ emitted (h ++ [deed]) peer ↔
      event ∈ h.emitted peer ∨ deed.peer = peer ∧ deed.event = some event := by
  rw [emitted_append, List.mem_append, mem_emitted (h := [deed])]
  simp

theorem accepted_singleton (deed : Deed) (peer : PeerId) (sort : Event → Bool) :
    accepted [deed] peer sort =
      if deed.peer = peer ∧ deed.event.any sort then deed.received?.toList else [] := by
  by_cases met : deed.peer = peer ∧ deed.event.any sort
  · cases found : deed.received? with
    | none => simp [accepted, met, found]
    | some message => simp [accepted, met, found]
  · simp [accepted, met]

/-- A deed that tells a peer no event of a sort takes in nothing for it. -/
theorem accepted_of_untold {h : History} {deed : Deed} {peer : PeerId} {sort : Event → Bool}
    (untold : deed.peer = peer → ¬ deed.event.any sort = true) :
    accepted (h ++ [deed]) peer sort = h.accepted peer sort := by
  rw [accepted_append, accepted_singleton, if_neg fun both => untold both.1 both.2, List.append_nil]

theorem replies_singleton (deed : Deed) (peer : PeerId) (id : MessageId) :
    replies [deed] peer id =
      if deed.peer = peer ∧ deed.received?.all (!·.body.isAnswer) then
        (deed.offered.map (·.message)).filter fun m => m.id = id ∧ m.body.isAnswer
      else [] := List.flatMap_singleton ..

section Idle

variable (h : History) {deed : Deed} (idle : deed.Idle) (peer : PeerId)

include idle

theorem startedIds_idle : startedIds (h ++ [deed]) = h.startedIds := by
  simp [startedIds, idle.started]

theorem queriesOf_idle : queriesOf (h ++ [deed]) peer = h.queriesOf peer := by
  simp [queriesOf, idle.started]

theorem emitted_idle : emitted (h ++ [deed]) peer = h.emitted peer := by
  simp [emitted_singleton, idle.event]

theorem accepted_idle (sort : Event → Bool) :
    accepted (h ++ [deed]) peer sort = h.accepted peer sort :=
  accepted_of_untold fun _ => by simp [idle.event]

theorem replies_idle (id : MessageId) : replies (h ++ [deed]) peer id = h.replies peer id := by
  simp [replies_singleton, idle.offered]

theorem started_idle {id : MessageId} {exchange : Exchange} :
    Started (h ++ [deed]) peer id exchange ↔ h.Started peer id exchange := by
  simp [Started, idle.started]

end Idle

theorem started_append {h k : History} {peer : PeerId} {id : MessageId} {exchange : Exchange} :
    Started (h ++ k) peer id exchange ↔
      Started h peer id exchange ∨ Started k peer id exchange := by
  simp only [Started, List.mem_append]
  constructor
  · rintro ⟨d, mem | mem, rest⟩
    · exact .inl ⟨d, mem, rest⟩
    · exact .inr ⟨d, mem, rest⟩
  · rintro (⟨d, mem, rest⟩ | ⟨d, mem, rest⟩)
    · exact ⟨d, .inl mem, rest⟩
    · exact ⟨d, .inr mem, rest⟩

theorem Started.mono {h : History} {peer : PeerId} {id : MessageId} {exchange : Exchange}
    (started : h.Started peer id exchange) (k : History) :
    Started (h ++ k) peer id exchange := started_append.2 (.inl started)

theorem started_concat (h : History) {deed : Deed} {peer : PeerId} {id : MessageId}
    {exchange : Exchange} (own : deed.peer = peer) (began : deed.started? = some (id, exchange)) :
    Started (h ++ [deed]) peer id exchange := ⟨deed, by simp, own, began⟩

/-- An exchange that was started has its identifier among those started. -/
theorem Started.mem {h : History} {peer : PeerId} {id : MessageId} {exchange : Exchange}
    (started : h.Started peer id exchange) : id ∈ h.startedIds := by
  obtain ⟨d, mem, -, found⟩ := started
  exact List.mem_filterMap.2 ⟨d, mem, by simp [found]⟩

/-- Identifiers that are used once were used once before. -/
theorem nodup_startedIds {h k : History} (distinct : (startedIds (h ++ k)).Nodup) :
    h.startedIds.Nodup := by
  rw [startedIds_append] at distinct
  exact (List.nodup_append.1 distinct).1

/-- An exchange that is started under an identifier of its own was not started before. -/
theorem unknown_of_nodup {h : History} {deed : Deed} {id : MessageId} {exchange : Exchange}
    (distinct : (startedIds (h ++ [deed])).Nodup)
    (began : deed.started? = some (id, exchange)) : id ∉ h.startedIds := by
  rw [startedIds_append] at distinct
  exact fun known => (List.nodup_append.1 distinct).2.2 id known id
    (by simp [startedIds, began]) rfl

/-- A compliance query that a peer started is one of its queries. -/
theorem Started.mem_queriesOf {h : History} {peer : PeerId} {id : MessageId}
    {framework : Framework} (started : h.Started peer id (.comply framework)) :
    id ∈ h.queriesOf peer := by
  obtain ⟨d, mem, own, found⟩ := started
  exact List.mem_filterMap.2 ⟨d, mem, by simp [found, own]⟩

/-- A peer started no more queries than exchanges were started. -/
theorem length_queriesOf_le (h : History) (peer : PeerId) :
    (h.queriesOf peer).length ≤ h.startedIds.length := by
  refine List.Sublist.length_le ?_
  induction h with
  | nil => exact .slnil
  | cons d rest ih =>
    simp only [queriesOf, startedIds, List.filterMap_cons] at ih ⊢
    cases d.started? with
    | none => exact ih
    | some pair =>
      obtain ⟨id, _ | _ | _⟩ := pair
      · exact .cons _ ih
      · exact .cons _ ih
      · simp only
        split
        · rename_i dropped
          exact .cons _ ih
        · rename_i kept
          split at kept
          · cases kept
            exact .cons_cons _ ih
          · cases kept

/-- Identifiers that are used once belong to one exchange of one peer. -/
theorem Started.unique {h : History} {p q : PeerId} {id : MessageId} {x y : Exchange}
    (distinct : h.startedIds.Nodup) (first : h.Started p id x) (second : h.Started q id y) :
    p = q ∧ x = y := by
  induction h with
  | nil =>
    obtain ⟨d, mem, -⟩ := first
    cases mem
  | cons d rest ih =>
    have split : ∀ {r z}, Started (d :: rest) r id z →
        (d.peer = r ∧ d.started? = some (id, z)) ∨ Started rest r id z := by
      rintro r z ⟨e, mem, own, found⟩
      rcases List.mem_cons.1 mem with rfl | mem
      · exact .inl ⟨own, found⟩
      · exact .inr ⟨e, mem, own, found⟩
    have later : startedIds rest |>.Nodup := by
      have := distinct
      rw [← List.singleton_append, startedIds_append] at this
      exact (List.nodup_append.1 this).2.1
    have once : ∀ {r z s w}, d.peer = r ∧ d.started? = some (id, z) →
        Started rest s id w → False := by
      rintro r z s w ⟨-, found⟩ there
      have here : id ∈ startedIds [d] := by simp [startedIds, found]
      rw [← List.singleton_append, startedIds_append] at distinct
      exact (List.nodup_append.1 distinct).2.2 id here id there.mem rfl
    rcases split first with here | there
    · rcases split second with here' | there'
      · obtain ⟨rfl, found⟩ := here
        obtain ⟨rfl, found'⟩ := here'
        rw [found] at found'
        cases found'
        exact ⟨rfl, rfl⟩
      · exact (once here there').elim
    · rcases split second with here' | there'
      · exact (once here' there).elim
      · exact ih later there there'

end History

end TrustMesh
