import TrustMesh.Mesh.RelayNode
import TrustMesh.Proofs.Relay.Journal
import Mathlib.Logic.Function.Iterate

/-!
# Nodes in service

Commands reach a node through any number of handles, at any time: also between the moment
at which the node takes a command out of its inbox and the moment at which the command is
done. The application reads events at its own pace.

However these moves interleave, the engine is called for the accepted commands before the
first shutdown, each once and in order, and everyone who waits for an answer gets the right
one (`Service.serves_in_order`).
-/

namespace TrustMesh

/-- A node in service: the node and the command that it took out of its inbox and has not done. Recorded
are the commands that the inbox accepted, the calls of the engine, the events that the application
read, and whether it still listens. -/
structure Service where
  node : RelayNode
  taken : Option Command
  accepted : List Command
  calls : List Call
  received : List Event
  listening : Bool

/-- What may happen next: a command is submitted through some handle, the node takes a command or does
the one that it took, or the application reads an event or gives up listening. -/
inductive Move where
  | deliver (sender : Option PeerId) (frame : Frame)
  | request (exchange : Exchange)
  | shutdown
  | take
  | finish (directory : Directory) (id : MessageId)
  | read
  | leave

/-- Whether a move takes a command, does it or reads an event: whether it is a part of the work. -/
def Move.isInner : Move → Bool
  | .take => true
  | .finish .. => true
  | .read => true
  | _ => false

/-- Whether a command is to stop. -/
def Command.isShutdown : Command → Bool
  | .shutdown => true
  | _ => false

/-- A call of the engine does a command. -/
inductive Command.Does : Command → Call → Prop where
  | deliver (s : Surroundings) (sender : Option PeerId) (frame : Frame) :
      Does (.deliver sender frame) (.frame s sender frame)
  | start (s : Surroundings) (ticket : Nat) (id : MessageId) (exchange : Exchange) :
      Does (.start ticket exchange) (.start s id exchange)

theorem Command.Does.not_shutdown {command : Command} {c : Call} (does : command.Does c) :
    command.isShutdown = false := by
  cases does <;> rfl

namespace RelayNode

/-- The call of the engine by which a node does a command. -/
def call? (n : RelayNode) (directory : Directory) (id : MessageId) : Command → Option Call
  | .deliver sender frame => some (.frame ⟨directory, n.oracle⟩ sender frame)
  | .start _ exchange => some (.start ⟨directory, n.oracle⟩ id exchange)
  | .shutdown => none

/-- The events that the application has not read. -/
def unread (n : RelayNode) : List Event := n.events ++ n.waiting.toList

/-- Read one event. An event that waited takes its place. -/
def read (n : RelayNode) : Option (Event × RelayNode) :=
  match n.events with
  | [] => none
  | event :: rest => some (event, { n with events := rest ++ n.waiting.toList, waiting := none })

/-- An event is kept for the application, and one that has to wait does so behind others. -/
theorem unread_emit {n : RelayNode} (free : n.waiting = none) (event : Event) :
    (n.emit event).unread = n.unread ++ [event] ∧
      (0 < n.engine.settings.eventBuffer → (n.emit event).waiting.isSome →
        (n.emit event).events ≠ []) := by
  unfold emit
  split
  · refine ⟨by simp [unread, free], fun _ waits => ?_⟩
    rw [free] at waits
    cases waits
  · rename_i full
    refine ⟨by simp [unread, free], fun room _ none => ?_⟩
    rw [none] at full
    exact full room

/-- What a node made of a frame: its engine was called, and it keeps the event, if there is one. -/
structure Heard (n : RelayNode) (step : Step Outcome) (next : RelayNode) : Prop where
  engine : next.engine = step.engine
  inbox : next.inbox = n.inbox
  alive : next.alive = n.alive
  answers : next.answers = n.answers
  unread : next.unread = n.unread ++ step.result.event?.toList
  patient : 0 < step.engine.settings.eventBuffer → next.waiting.isSome → next.events ≠ []

theorem execute_deliver {n : RelayNode} (free : n.waiting = none) (directory : Directory)
    (id : MessageId) (sender : Option PeerId) (frame : Frame) :
    n.Heard (n.engine.handleFrame ⟨directory, n.oracle⟩ sender frame)
      (n.execute directory id (.deliver sender frame)).node := by
  generalize called : n.engine.handleFrame ⟨directory, n.oracle⟩ sender frame = step
  let next : RelayNode := { n with engine := step.engine, asked := n.asked ++ step.asked }
  cases told : step.result.event? with
  | none =>
    have quiet : (n.execute directory id (.deliver sender frame)).node = next := by
      simp only [execute, called, told, next]
    rw [quiet]
    refine ⟨rfl, rfl, rfl, rfl, by simp [told, unread, next], fun _ waits => ?_⟩
    rw [show next.waiting = none from free] at waits
    cases waits
  | some event =>
    have tells : (n.execute directory id (.deliver sender frame)).node = next.emit event := by
      simp only [execute, called, told, next]
    obtain ⟨kept, patient⟩ := unread_emit (n := next) free event
    have rest : (next.emit event).engine = step.engine ∧ (next.emit event).inbox = n.inbox ∧
        (next.emit event).alive = n.alive ∧ (next.emit event).answers = n.answers := by
      unfold emit
      split <;> exact ⟨rfl, rfl, rfl, rfl⟩
    rw [tells]
    exact ⟨rest.1, rest.2.1, rest.2.2.1, rest.2.2.2, by rw [kept, told]; rfl, patient⟩

end RelayNode

namespace Service

/-- A node that is created and has done nothing yet. -/
def begin (engine : Engine) (oracle : Oracle) (neighbours : OrderedSet PeerId) : Service :=
  ⟨.create engine oracle neighbours, none, [], [], [], true⟩

/-- A command is submitted. -/
def put (s : Service) (command : Command) : Service :=
  match s.node.submit command with
  | .ok node => { s with node, accepted := s.accepted ++ [command] }
  | .error _ => s

/-- The node takes the first command out of its inbox, if it is not at work. -/
def take (s : Service) : Service :=
  match s.taken, s.node.busy, s.node.inbox with
  | none, true, command :: rest =>
    { s with node := { s.node with inbox := rest }, taken := some command }
  | _, _, _ => s

/-- The node does a command. -/
def perform (s : Service) (command : Command) (directory : Directory) (id : MessageId) : Service :=
  { s with
    node := (s.node.execute directory id command).node
    taken := none
    calls := s.calls ++ (s.node.call? directory id command).toList }

/-- No event is kept for an application that does not listen, and the node does not wait for it. -/
def discard (s : Service) : Service :=
  if s.listening then s else { s with node := { s.node with events := [], waiting := none } }

/-- The node does the command that it took. -/
def finish (s : Service) (directory : Directory) (id : MessageId) : Service :=
  match s.taken with
  | some command => (s.perform command directory id).discard
  | none => s

/-- The application reads an event. -/
def read (s : Service) : Service :=
  match s.node.read with
  | some (event, node) => { s with node, received := s.received ++ [event] }
  | none => s

/-- What a move leads to. The ticket of a request is the number of commands accepted before. -/
def step (s : Service) : Move → Service
  | .deliver sender frame => s.put (.deliver sender frame)
  | .request exchange => s.put (.start s.accepted.length exchange)
  | .shutdown => s.put .shutdown
  | .take => s.take
  | .finish directory id => s.finish directory id
  | .read => s.read
  | .leave => { s with listening := false }.discard

/-- What some moves lead to. -/
def run (s : Service) (moves : List Move) : Service := moves.foldl step s

/-- Whether the request with a ticket is in the inbox or being done: the place for its answer goes with
it. -/
def holds (s : Service) (ticket : Nat) : Bool :=
  (s.taken.toList ++ s.node.inbox).any fun
    | .start other _ => other = ticket
    | _ => false

/-- What the request with a ticket returns, if it is not waiting. Nobody can answer a request any more
whose place for the answer is gone. -/
def reply? (s : Service) (ticket : Nat) : Option (Except RelayFault Started) :=
  match s.node.answer? ticket with
  | some started => some (.ok started)
  | none => if s.holds ticket then none else some (.error (.nodeStopped s.node.id))

/-- The commands that are due: those that were accepted before the first shutdown. -/
def due (s : Service) : List Command := s.accepted.takeWhile fun command => !command.isShutdown

/-- How much is left to do. -/
def work (s : Service) : Nat :=
  3 * s.node.inbox.length + 2 * s.taken.toList.length + s.node.unread.length

/-- There is nothing to take, to do or to read. -/
def Settled (s : Service) : Prop := ∀ move : Move, move.isInner = true → s.step move = s

variable {s : Service} {first : Engine} {command : Command}

/-! ## What a move does -/

theorem take_cases (s : Service) : s.take = s ∨
    ∃ command rest, s.taken = none ∧ s.node.busy = true ∧ s.node.inbox = command :: rest ∧
      s.take = { s with node := { s.node with inbox := rest }, taken := some command } := by
  unfold take
  split
  · rename_i command rest free busy queue
    exact .inr ⟨command, rest, free, busy, queue, rfl⟩
  · exact .inl rfl

theorem read_cases (s : Service) : s.read = s ∨ ∃ event rest, s.node.events = event :: rest ∧
    s.read = { s with
      node := { s.node with events := rest ++ s.node.waiting.toList, waiting := none }
      received := s.received ++ [event] } := by
  unfold read RelayNode.read
  cases filled : s.node.events with
  | nil => exact .inl rfl
  | cons event rest => exact .inr ⟨event, rest, rfl, rfl⟩

theorem discard_cases (s : Service) : s.discard = s ∨ s.listening = false ∧
    s.discard = { s with node := { s.node with events := [], waiting := none } } := by
  unfold discard
  cases s.listening <;> simp

/-- A node that takes a command and does it at once acts. -/
theorem finish_take (free : s.taken = none) (busy : s.node.busy = true)
    (listening : s.listening = true) (directory : Directory) (id : MessageId) :
    (s.take.finish directory id).node = (s.node.act directory id).node := by
  cases queued : s.node.inbox with
  | nil => simp [RelayNode.busy, queued] at busy
  | cons command rest =>
    simp [take, free, busy, queued, finish, perform, discard, listening, RelayNode.act]

/-- Events that are in the buffer are read one by one. -/
theorem iterate_read {front back : List Event} (quiet : s.node.waiting = none)
    (filled : s.node.events = front ++ back) : read^[front.length] s =
      { s with node := { s.node with events := back }, received := s.received ++ front } := by
  induction front generalizing s with
  | nil =>
    obtain ⟨⟨_, _, _, _, events, _, _, _, _⟩, _, _, _, _, _⟩ := s
    cases show events = back from filled
    simp
  | cons event rest ih =>
    have took : s.read = { s with
        node := { s.node with events := rest ++ back }, received := s.received ++ [event] } := by
      simp [read, RelayNode.read, filled, quiet]
    rw [List.length_cons, Function.iterate_succ_apply, took]
    exact Eq.trans (ih quiet rfl) (by simp)

/-- An application that reads every event in the buffer collects them. -/
theorem iterate_read_eq_collect (patient : s.node.waiting.isSome → s.node.events ≠ []) :
    read^[s.node.events.length] s =
      { s with node := s.node.collect.2, received := s.received ++ s.node.collect.1 } := by
  cases filled : s.node.events with
  | nil =>
    have quiet : s.node.waiting = none :=
      Option.not_isSome_iff_eq_none.1 fun waits => patient waits filled
    obtain ⟨⟨_, _, _, _, events, waiting, _, _, _⟩, _, _, _, _, _⟩ := s
    cases show events = [] from filled
    cases show waiting = none from quiet
    simp [RelayNode.collect]
  | cons event rest =>
    have took : s.read = { s with
        node := { s.node with events := rest ++ s.node.waiting.toList, waiting := none }
        received := s.received ++ [event] } := by
      simp [read, RelayNode.read, filled]
    rw [List.length_cons, Function.iterate_succ_apply, took, iterate_read rfl rfl]
    simp [RelayNode.collect, filled]

/-! ## What every move keeps -/

/-- The commands of a service: those that are done, by the calls of the engine, and then those that are
still to be done; where the node has stopped, the shutdown and what came behind it. -/
structure Queued (s : Service) (done : List Command) : Prop where
  does : List.Forall₂ Command.Does done s.calls
  ahead : s.node.alive = true → s.accepted = done ++ (s.taken.toList ++ s.node.inbox)
  stopped : s.node.alive = false → s.taken = none ∧ s.node.inbox = [] ∧
    ∃ behind, s.accepted = done ++ .shutdown :: behind

/-- A service of a node whose engine is the first one after its calls. -/
structure Orderly (first : Engine) (s : Service) : Prop where
  engine : s.node.engine = first.run s.calls
  queued : ∃ done, s.Queued done
  numbered : ∀ k ticket exchange, s.accepted[k]? = some (Command.start ticket exchange) → ticket = k
  answers : ∀ k, s.node.answer? k = ((first.journal s.calls)[k]?).bind Engine.Entry.started?
  events : s.listening = true →
    s.received ++ s.node.unread = (first.journal s.calls).filterMap Engine.Entry.event?
  patient : s.node.waiting.isSome → s.taken = none ∧ s.node.events ≠ []

theorem orderly_begin (first : Engine) (oracle : Oracle) (neighbours : OrderedSet PeerId) :
    (begin first oracle neighbours).Orderly first where
  engine := rfl
  queued := ⟨[], .nil, fun _ => rfl, nofun⟩
  numbered := by simp [begin]
  answers k := rfl
  events _ := rfl
  patient := nofun

/-- A node that runs accepts every command. -/
theorem put_of_alive (alive : s.node.alive = true) (command : Command) :
    s.put command = { s with
      node := { s.node with inbox := s.node.inbox ++ [command] }
      accepted := s.accepted ++ [command] } := by
  simp [put, RelayNode.submit, alive]

/-- A node that has stopped accepts none. -/
theorem put_of_stopped (stopped : s.node.alive = false) (command : Command) :
    s.put command = s := by
  simp [put, RelayNode.submit, stopped]

theorem Orderly.put (orderly : s.Orderly first)
    (own : ∀ ticket exchange, command = .start ticket exchange → ticket = s.accepted.length) :
    (s.put command).Orderly first := by
  cases alive : s.node.alive with
  | false => rwa [put_of_stopped alive]
  | true =>
    rw [put_of_alive alive]
    obtain ⟨done, queued⟩ := orderly.queued
    refine ⟨orderly.engine, ⟨done, queued.does, fun _ => ?_, fun stopped => ?_⟩, ?_, orderly.answers,
      orderly.events, orderly.patient⟩
    · simp [queued.ahead alive]
    · cases alive.symm.trans stopped
    · intro k ticket exchange there
      rcases Nat.lt_or_ge k s.accepted.length with earlier | later
      · rw [List.getElem?_append_left earlier] at there
        exact orderly.numbered k ticket exchange there
      · rw [List.getElem?_append_right later, List.getElem?_singleton] at there
        split at there
        · cases there
          have := own ticket exchange rfl
          omega
        · cases there

theorem Orderly.take (orderly : s.Orderly first) : s.take.Orderly first := by
  rcases s.take_cases with same | ⟨command, rest, free, busy, queue, took⟩
  · rwa [same]
  · obtain ⟨done, queued⟩ := orderly.queued
    simp only [RelayNode.busy, Bool.and_eq_true, Option.isNone_iff_eq_none] at busy
    rw [took]
    refine ⟨orderly.engine, ⟨done, queued.does, fun alive => ?_, fun stopped => ?_⟩,
      orderly.numbered, orderly.answers, orderly.events, fun waits => ?_⟩
    · rw [queued.ahead alive, free, queue]
      rfl
    · cases busy.1.1.symm.trans stopped
    · rw [busy.1.2] at waits
      cases waits

theorem Orderly.read (orderly : s.Orderly first) : s.read.Orderly first := by
  rcases s.read_cases with same | ⟨event, rest, filled, took⟩
  · rwa [same]
  · obtain ⟨done, queued⟩ := orderly.queued
    rw [took]
    refine ⟨orderly.engine, ⟨done, queued.does, queued.ahead, queued.stopped⟩, orderly.numbered,
      orderly.answers, fun listens => ?_, nofun⟩
    simpa [RelayNode.unread, filled] using orderly.events listens

theorem Orderly.discard (orderly : s.Orderly first) : s.discard.Orderly first := by
  rcases s.discard_cases with same | ⟨left, discards⟩
  · rwa [same]
  · obtain ⟨done, queued⟩ := orderly.queued
    rw [discards]
    refine ⟨orderly.engine, ⟨done, queued.does, queued.ahead, queued.stopped⟩, orderly.numbered,
      orderly.answers, fun listens => ?_, nofun⟩
    cases left.symm.trans listens

theorem Orderly.leave (orderly : s.Orderly first) :
    Orderly first { s with listening := false } := by
  obtain ⟨done, queued⟩ := orderly.queued
  exact ⟨orderly.engine, ⟨done, queued.does, queued.ahead, queued.stopped⟩, orderly.numbered,
    orderly.answers, nofun, orderly.patient⟩

theorem bind_journal_concat (first : Engine) (calls : List Call) (c : Call) (k : Nat) :
    ((first.journal (calls ++ [c]))[k]?).bind Engine.Entry.started? =
      if k = calls.length then (Engine.Entry.mk (first.run calls) c).started?
      else ((first.journal calls)[k]?).bind Engine.Entry.started? := by
  rw [Engine.journal_concat, List.getElem?_append, Engine.length_journal]
  rcases Nat.lt_trichotomy k calls.length with earlier | rfl | later
  · rw [if_pos earlier, if_neg (Nat.ne_of_lt earlier)]
  · simp
  · rw [if_neg (Nat.not_lt_of_gt later), if_neg (Nat.ne_of_gt later),
      List.getElem?_eq_none (by simpa using by omega),
      List.getElem?_eq_none (Engine.length_journal .. ▸ Nat.le_of_lt later)]

theorem filterMap_journal_concat (first : Engine) (calls : List Call) (c : Call) :
    (first.journal (calls ++ [c])).filterMap Engine.Entry.event? =
      (first.journal calls).filterMap Engine.Entry.event? ++
        (Engine.Entry.mk (first.run calls) c).event?.toList := by
  rw [Engine.journal_concat, List.filterMap_append]
  cases told : (Engine.Entry.mk (first.run calls) c).event? <;> simp [told]

/-- The command that a node does is the one behind those that are done. -/
theorem Queued.next {done : List Command} (queued : s.Queued done) (busy : s.taken = some command) :
    s.node.alive = true ∧ s.accepted = done ++ command :: s.node.inbox := by
  cases alive : s.node.alive with
  | false =>
    rw [(queued.stopped alive).1] at busy
    cases busy
  | true =>
    refine ⟨rfl, ?_⟩
    rw [queued.ahead alive, busy]
    rfl

/-- While a command is being done no event waits. -/
theorem Orderly.free (orderly : s.Orderly first) (busy : s.taken = some command) :
    s.node.waiting = none := by
  refine Option.not_isSome_iff_eq_none.1 fun waits => ?_
  cases busy.symm.trans (orderly.patient waits).1

/-- A call that does the command in hand is one more of those that did commands. -/
theorem Queued.concat {done : List Command} (queued : s.Queued done)
    (busy : s.taken = some command) {c : Call} (does : command.Does c) {node : RelayNode}
    (alive : node.alive = s.node.alive) (inbox : node.inbox = s.node.inbox) :
    Queued { s with node, taken := none, calls := s.calls ++ [c] } (done ++ [command]) := by
  obtain ⟨runs, accepted⟩ := queued.next busy
  refine ⟨List.rel_append queued.does (.cons does .nil), fun _ => ?_, fun stopped => ?_⟩
  · simp [accepted, inbox]
  · cases (alive.trans runs).symm.trans stopped

theorem Orderly.perform_shutdown (orderly : s.Orderly first) (busy : s.taken = some .shutdown)
    (directory : Directory) (id : MessageId) :
    (s.perform .shutdown directory id).Orderly first := by
  obtain ⟨done, queued⟩ := orderly.queued
  have ends : s.perform .shutdown directory id =
      { s with node := { s.node with alive := false, inbox := [] }, taken := none } := by
    simp [Service.perform, RelayNode.execute, RelayNode.call?]
  rw [ends]
  refine ⟨orderly.engine, ⟨done, queued.does, nofun, fun _ => ?_⟩, orderly.numbered,
    orderly.answers, orderly.events, fun waits => ?_⟩
  · exact ⟨rfl, rfl, s.node.inbox, (queued.next busy).2⟩
  · rw [show s.node.waiting = none from orderly.free busy] at waits
    cases waits

theorem Orderly.perform_deliver (orderly : s.Orderly first)
    (room : 0 < first.settings.eventBuffer) {sender : Option PeerId} {frame : Frame}
    (busy : s.taken = some (.deliver sender frame)) (directory : Directory) (id : MessageId) :
    (s.perform (.deliver sender frame) directory id).Orderly first := by
  obtain ⟨done, queued⟩ := orderly.queued
  have heard := RelayNode.execute_deliver (orderly.free busy) directory id sender frame
  generalize reached : (s.node.execute directory id (.deliver sender frame)).node = next at heard
  let c : Call := .frame ⟨directory, s.node.oracle⟩ sender frame
  have does : s.perform (.deliver sender frame) directory id =
      { s with node := next, taken := none, calls := s.calls ++ [c] } := by
    simp [Service.perform, RelayNode.call?, reached, c]
  have engine : next.engine = first.run (s.calls ++ [c]) := by
    rw [heard.engine, orderly.engine, Engine.run_concat]
    rfl
  rw [does]
  refine ⟨engine, ⟨_, queued.concat busy (.deliver ..) heard.alive heard.inbox⟩, orderly.numbered,
    fun k => ?_, fun listens => ?_, fun waits => ⟨rfl, heard.patient ?_ waits⟩⟩
  · have same : next.answer? k = s.node.answer? k := by
      simp only [RelayNode.answer?, heard.answers]
    rw [same, orderly.answers, bind_journal_concat]
    split
    · rename_i last
      rw [last, List.getElem?_eq_none (Nat.le_of_eq (Engine.length_journal ..))]
      rfl
    · rfl
  · rw [heard.unread, ← List.append_assoc, orderly.events listens, filterMap_journal_concat,
      orderly.engine]
    rfl
  · rw [← heard.engine, engine, (Engine.run_setup ..).2]
    exact room

theorem Orderly.perform_start (orderly : s.Orderly first) {ticket : Nat} {exchange : Exchange}
    (busy : s.taken = some (.start ticket exchange)) (directory : Directory) (id : MessageId) :
    (s.perform (.start ticket exchange) directory id).Orderly first := by
  obtain ⟨done, queued⟩ := orderly.queued
  let c : Call := .start ⟨directory, s.node.oracle⟩ id exchange
  let started := s.node.engine.start ⟨directory, s.node.oracle⟩ id exchange
  have does : s.perform (.start ticket exchange) directory id = { s with
      node := { s.node with
        engine := started.engine
        asked := s.node.asked ++ started.asked
        answers := s.node.answers ++ [(ticket, started.result)] }
      taken := none
      calls := s.calls ++ [c] } := by
    simp [Service.perform, RelayNode.call?, RelayNode.execute, c, started]
  have own : ticket = s.calls.length := by
    rw [← queued.does.length_eq]
    refine orderly.numbered _ ticket exchange ?_
    rw [(queued.next busy).2]
    simp
  rw [does]
  refine ⟨?_, ⟨_, queued.concat busy (.start ..) rfl rfl⟩, orderly.numbered, fun k => ?_,
    fun listens => ?_, fun waits => ?_⟩
  · rw [Engine.run_concat, ← orderly.engine]
    rfl
  · have before := orderly.answers k
    simp only [RelayNode.answer?, List.find?_append] at before ⊢
    rw [bind_journal_concat, ← before, own, ← orderly.engine]
    split
    · rename_i last
      have fresh : s.node.answers.find? (·.1 = k) = none := by
        rw [last, List.getElem?_eq_none (Nat.le_of_eq (Engine.length_journal ..))] at before
        simpa [last] using before
      rw [fresh, last]
      simp [started, c, Engine.Entry.started?, Engine.Entry.step, Engine.perform, Step.map]
    · rename_i other
      simp [Ne.symm other]
  · have told : (Engine.Entry.mk (first.run s.calls) c).event? = none := rfl
    rw [filterMap_journal_concat, told]
    exact (orderly.events listens).trans (List.append_nil _).symm
  · rw [show s.node.waiting = none from orderly.free busy] at waits
    cases waits

theorem Orderly.finish (orderly : s.Orderly first) (room : 0 < first.settings.eventBuffer)
    (directory : Directory) (id : MessageId) : (s.finish directory id).Orderly first := by
  cases busy : s.taken with
  | none => simpa [Service.finish, busy] using orderly
  | some command =>
    have performed : (s.perform command directory id).Orderly first := by
      cases command with
      | shutdown => exact orderly.perform_shutdown busy directory id
      | deliver sender frame => exact orderly.perform_deliver room busy directory id
      | start ticket exchange => exact orderly.perform_start busy directory id
    simpa [Service.finish, busy] using performed.discard

/-- Every move keeps a service orderly. -/
theorem Orderly.step (orderly : s.Orderly first) (room : 0 < first.settings.eventBuffer)
    (move : Move) : (s.step move).Orderly first := by
  cases move with
  | deliver sender frame => exact orderly.put nofun
  | request exchange => exact orderly.put fun _ _ same => (Command.start.inj same).1.symm
  | shutdown => exact orderly.put nofun
  | take => exact orderly.take
  | finish directory id => exact orderly.finish room directory id
  | read => exact orderly.read
  | leave => exact orderly.leave.discard

/-- A node that begins its service orderly stays so, whatever happens. -/
theorem orderly_run (room : 0 < first.settings.eventBuffer) (oracle : Oracle)
    (neighbours : OrderedSet PeerId) (moves : List Move) :
    ((begin first oracle neighbours).run moves).Orderly first := by
  have general : ∀ s : Service, s.Orderly first → (s.run moves).Orderly first := by
    induction moves with
    | nil => exact fun _ orderly => orderly
    | cons move rest ih => exact fun s orderly => ih _ (orderly.step room move)
  exact general _ (orderly_begin ..)

/-! ## What follows at any time -/

/-- A command that is done is no shutdown. -/
theorem Queued.not_shutdown {done : List Command} (queued : s.Queued done) :
    ∀ command ∈ done, command.isShutdown = false :=
  ((List.forall₂_and_left done s.calls).1
    (queued.does.imp fun _ _ does => ⟨does.not_shutdown, does⟩)).1

/-- The commands that are done are the first ones of those that are due. -/
theorem Queued.due_eq {done : List Command} (queued : s.Queued done) :
    (s.node.alive = false → s.due = done) ∧
      (s.node.alive = true → s.due = done ++ (s.taken.toList ++ s.node.inbox).takeWhile
        fun command => !command.isShutdown) := by
  have plain : ∀ command ∈ done, (!command.isShutdown) = true :=
    fun command mem => by rw [queued.not_shutdown command mem, Bool.not_false]
  refine ⟨fun stopped => ?_, fun alive => ?_⟩
  · obtain ⟨-, -, behind, accepted⟩ := queued.stopped stopped
    rw [due, accepted, List.takeWhile_append_of_pos plain]
    simp [Command.isShutdown]
  · rw [due, queued.ahead alive, List.takeWhile_append_of_pos plain]

theorem Queued.take_due {done : List Command} (queued : s.Queued done) :
    s.due.take s.calls.length = done := by
  rw [← queued.does.length_eq]
  cases alive : s.node.alive with
  | false => rw [queued.due_eq.1 alive, List.take_length]
  | true => rw [queued.due_eq.2 alive, List.take_left]

/-- Nothing behind the first shutdown is done. -/
theorem Queued.length_calls_le {done : List Command} (queued : s.Queued done) :
    s.calls.length ≤ s.due.length := by
  have fits := queued.does.length_eq
  rw [← queued.take_due, List.length_take] at fits
  omega

theorem Orderly.id_eq (orderly : s.Orderly first) : s.node.id = first.primary := by
  rw [RelayNode.id, orderly.engine, (Engine.run_setup ..).1]
  rfl

/-- A node refuses a command only if it has stopped. -/
theorem Orderly.submit_eq_error (orderly : s.Orderly first) {fault : RelayFault} :
    s.node.submit command = .error fault ↔
      s.node.alive = false ∧ fault = .nodeStopped first.primary := by
  unfold RelayNode.submit
  rw [orderly.id_eq]
  cases s.node.alive <;> simp [eq_comm]

/-- A request that was done returns what the engine returned. -/
theorem Orderly.answered (orderly : s.Orderly first) {k ticket : Nat} {exchange : Exchange}
    (there : s.accepted[k]? = some (.start ticket exchange)) (done : k < s.calls.length) :
    ∃ surroundings id, s.calls[k]? = some (.start surroundings id exchange) ∧
      s.reply? k = some
        (.ok ((first.run (s.calls.take k)).start surroundings id exchange).result) := by
  obtain ⟨front, queued⟩ := orderly.queued
  have within : k < front.length := queued.does.length_eq ▸ done
  have same : front[k] = .start ticket exchange := by
    have whole : ∃ rest, s.accepted = front ++ rest := by
      cases alive : s.node.alive with
      | false => exact ⟨_, (queued.stopped alive).2.2.choose_spec⟩
      | true => exact ⟨_, queued.ahead alive⟩
    obtain ⟨rest, whole⟩ := whole
    rw [whole, List.getElem?_append_left within, List.getElem?_eq_getElem within] at there
    exact Option.some.inj there
  have does := queued.does.get within done
  simp only [List.get_eq_getElem, same] at does
  generalize called : s.calls[k] = c at does
  cases does with
  | start surroundings _ id =>
    have found : s.calls[k]? = some (.start surroundings id exchange) := by
      rw [List.getElem?_eq_getElem done, called]
    refine ⟨surroundings, id, found, ?_⟩
    rw [reply?, orderly.answers, Engine.getElem?_journal, found]
    rfl

/-- Any other request waits as long as the node runs, and is told when the node has stopped. -/
theorem Orderly.unanswered (orderly : s.Orderly first) {k ticket : Nat} {exchange : Exchange}
    (there : s.accepted[k]? = some (.start ticket exchange)) (left : s.calls.length ≤ k) :
    s.reply? k = if s.node.alive then none else some (.error (.nodeStopped first.primary)) := by
  obtain ⟨done, queued⟩ := orderly.queued
  have silent : s.node.answer? k = none := by
    rw [orderly.answers, Engine.getElem?_journal, List.getElem?_eq_none left]
    rfl
  rw [reply?, silent, orderly.id_eq]
  cases alive : s.node.alive with
  | false =>
    obtain ⟨free, empty, -⟩ := queued.stopped alive
    simp [holds, free, empty]
  | true =>
    have own := orderly.numbered k ticket exchange there
    rw [queued.ahead alive, List.getElem?_append_right (queued.does.length_eq ▸ left)] at there
    have waits : s.holds k = true := List.any_eq_true.2
      ⟨_, List.mem_of_getElem? there, decide_eq_true own⟩
    simp [waits]

/-- A node stops at a shutdown, when everything before it is done. -/
theorem Orderly.stopped (orderly : s.Orderly first) (stopped : s.node.alive = false) :
    (∃ command ∈ s.accepted, command.isShutdown = true) ∧ s.calls.length = s.due.length := by
  obtain ⟨done, queued⟩ := orderly.queued
  obtain ⟨-, -, behind, accepted⟩ := queued.stopped stopped
  refine ⟨⟨.shutdown, by simp [accepted], rfl⟩, ?_⟩
  rw [queued.due_eq.1 stopped, queued.does.length_eq]

/-- Nothing touches the engine of a node that has stopped. -/
theorem Orderly.untouched (orderly : s.Orderly first) (stopped : s.node.alive = false)
    (move : Move) : (s.step move).node.engine = s.node.engine ∧ (s.step move).calls = s.calls := by
  obtain ⟨done, queued⟩ := orderly.queued
  have free := (queued.stopped stopped).1
  cases move with
  | take => simp [Service.step, Service.take, RelayNode.busy, stopped]
  | finish directory id => simp [Service.step, Service.finish, free]
  | read =>
    rcases s.read_cases with same | ⟨event, rest, -, took⟩
    · rw [Service.step, same]
      exact ⟨rfl, rfl⟩
    · rw [Service.step, took]
      exact ⟨rfl, rfl⟩
  | leave =>
    rcases discard_cases { s with listening := false } with same | ⟨-, discards⟩
    · rw [Service.step, same]
      exact ⟨rfl, rfl⟩
    · rw [Service.step, discards]
      exact ⟨rfl, rfl⟩
  | _ => simp [Service.step, put_of_stopped stopped]

theorem work_discard_le (s : Service) : s.discard.work ≤ s.work := by
  rcases s.discard_cases with same | ⟨-, discards⟩
  · exact Nat.le_of_eq (congrArg work same)
  · rw [discards]
    simp [work, RelayNode.unread]

/-- Doing the command in hand leaves less to do. -/
theorem Orderly.work_perform_lt (orderly : s.Orderly first) (busy : s.taken = some command)
    (directory : Directory) (id : MessageId) :
    (s.perform command directory id).work < s.work := by
  rw [perform]
  cases command with
  | shutdown =>
    simp only [work, busy, RelayNode.execute, RelayNode.unread, List.length_nil,
      Option.toList_none, Option.toList_some, List.length_cons]
    omega
  | deliver sender frame =>
    have heard := RelayNode.execute_deliver (orderly.free busy) directory id sender frame
    have few : ∀ event : Option Event, event.toList.length ≤ 1 := by
      rintro (_ | _) <;> simp
    have added := few
      (s.node.engine.handleFrame ⟨directory, s.node.oracle⟩ sender frame).result.event?
    simp only [work, busy, heard.inbox, heard.unread, List.length_append, Option.toList_none,
      Option.toList_some, List.length_cons, List.length_nil]
    omega
  | start ticket exchange =>
    simp only [work, busy, RelayNode.execute, RelayNode.unread, Option.toList_none,
      Option.toList_some, List.length_cons, List.length_nil]
    omega

/-- Every part of the work that does anything leaves less to do. -/
theorem Orderly.progress (orderly : s.Orderly first) (move : Move) (inner : move.isInner = true) :
    s.step move = s ∨ (s.step move).work < s.work := by
  cases move with
  | take =>
    refine s.take_cases.imp_right ?_
    rintro ⟨command, rest, free, -, queue, took⟩
    rw [Service.step, took, work, work, free, queue]
    simp only [List.length_cons, Option.toList_some, Option.toList_none, List.length_nil,
      RelayNode.unread]
    omega
  | finish directory id =>
    cases busy : s.taken with
    | none => exact .inl (by simp [Service.step, Service.finish, busy])
    | some command =>
      right
      rw [Service.step, Service.finish, busy]
      exact Nat.lt_of_le_of_lt (work_discard_le _) (orderly.work_perform_lt busy directory id)
  | read =>
    refine s.read_cases.imp_right ?_
    rintro ⟨event, rest, filled, took⟩
    rw [Service.step, took, work, work, RelayNode.unread, RelayNode.unread, filled]
    simp only [List.length_append, List.length_cons, Option.toList_none, List.length_nil]
    omega
  | _ => cases inner

/-- Where nothing can be done any more, all that is due is done and every event was read. -/
theorem Orderly.settled (orderly : s.Orderly first) (settled : s.Settled) :
    s.calls.length = s.due.length ∧
      (s.node.alive = false ↔ ∃ command ∈ s.accepted, command.isShutdown = true) ∧
      (s.listening = true →
        s.received = (first.journal s.calls).filterMap Engine.Entry.event?) := by
  have free : s.taken = none := by
    let directory : Directory := ⟨[], fun _ => none, fun _ _ => .ok ()⟩
    have same := settled (.finish directory .zero) rfl
    cases busy : s.taken with
    | none => rfl
    | some command =>
      have less := orderly.work_perform_lt busy directory .zero
      rw [Service.step, Service.finish, busy] at same
      have kept := work_discard_le (s.perform command directory .zero)
      rw [show (s.perform command directory .zero).discard = s from same] at kept
      exact absurd less (Nat.not_lt.2 kept)
  have empty : s.node.events = [] := by
    have same := settled .read rfl
    cases filled : s.node.events with
    | nil => rfl
    | cons event rest =>
      have more := congrArg Service.received same
      simp [Service.step, Service.read, RelayNode.read, filled] at more
  have quiet : s.node.waiting = none :=
    Option.not_isSome_iff_eq_none.1 fun waits => (orderly.patient waits).2 empty
  have idle : s.node.busy = false := by
    have same := settled .take rfl
    cases busy : s.node.busy with
    | false => rfl
    | true =>
      cases queue : s.node.inbox with
      | nil => simp [RelayNode.busy, queue] at busy
      | cons command rest =>
        have took := congrArg Service.taken same
        simp [Service.step, Service.take, free, busy, queue] at took
  obtain ⟨done, queued⟩ := orderly.queued
  have read : s.listening = true →
      s.received = (first.journal s.calls).filterMap Engine.Entry.event? := by
    simpa [RelayNode.unread, empty, quiet] using orderly.events
  cases alive : s.node.alive with
  | false => exact ⟨(orderly.stopped alive).2, iff_of_true rfl (orderly.stopped alive).1, read⟩
  | true =>
    have nothing : s.node.inbox = [] := by simpa [RelayNode.busy, alive, quiet] using idle
    have accepted : s.accepted = done := by simpa [free, nothing] using queued.ahead alive
    refine ⟨?_, iff_of_false nofun ?_, read⟩
    · rw [queued.due_eq.2 alive, free, nothing, ← queued.does.length_eq]
      simp
    · rintro ⟨command, mem, stops⟩
      rw [queued.not_shutdown command (accepted ▸ mem)] at stops
      cases stops

/-- A service of a node whose engine is the first one, as the engine and all who use the node see it. -/
structure Served (first : Engine) (s : Service) : Prop where
  /-- The engine was called for commands that are due, from the first one on, each once and in order. -/
  inOrder : s.node.engine = first.run s.calls ∧
    List.Forall₂ Command.Does (s.due.take s.calls.length) s.calls
  /-- Nothing behind the first shutdown is done. -/
  notBehind : s.calls.length ≤ s.due.length
  /-- A node that has stopped was told to, and did what was due. -/
  stopped : s.node.alive = false →
    (∃ command ∈ s.accepted, command.isShutdown = true) ∧ s.calls.length = s.due.length
  /-- Nothing touches its engine any more. -/
  untouched : s.node.alive = false → ∀ move,
    (s.step move).node.engine = s.node.engine ∧ (s.step move).calls = s.calls
  /-- A request that was done returns what the engine returned. -/
  answered : ∀ k ticket exchange, s.accepted[k]? = some (Command.start ticket exchange) →
    k < s.calls.length → ticket = k ∧ ∃ surroundings id,
      s.calls[k]? = some (.start surroundings id exchange) ∧ s.reply? ticket = some
        (.ok ((first.run (s.calls.take k)).start surroundings id exchange).result)
  /-- Any other request waits as long as the node runs, and is told when the node has stopped. -/
  unanswered : ∀ k ticket exchange, s.accepted[k]? = some (Command.start ticket exchange) →
    s.calls.length ≤ k → ticket = k ∧ s.reply? ticket =
      if s.node.alive then none else some (.error (.nodeStopped first.primary))
  /-- A command is refused only by a node that has stopped. -/
  refused : ∀ command fault, s.node.submit command = .error fault ↔
    s.node.alive = false ∧ fault = .nodeStopped first.primary
  /-- While the application listens, the events of the calls are those that it read and those that it
  can still read, in order. -/
  events : s.listening = true →
    s.received ++ s.node.unread = (first.journal s.calls).filterMap Engine.Entry.event?
  /-- Without new commands the work comes to an end. -/
  progress : ∀ move : Move, move.isInner = true → s.step move = s ∨ (s.step move).work < s.work
  /-- Then all that is due is done, the node has stopped if it was told to, and an application that
  listened has read all events. -/
  settled : s.Settled → s.calls.length = s.due.length ∧
    (s.node.alive = false ↔ ∃ command ∈ s.accepted, command.isShutdown = true) ∧
    (s.listening = true → s.received = (first.journal s.calls).filterMap Engine.Entry.event?)

/-- However submissions, the work of the node and the moves of its application interleave, a node with
usable settings does the commands that were accepted before the first shutdown, each once and in
order, and answers every request accordingly. -/
theorem serves_in_order {identity : Identity} {settings : Settings} {engine : Engine}
    (created : Engine.create identity settings = .ok engine) (oracle : Oracle)
    (neighbours : OrderedSet PeerId) (moves : List Move) :
    ((begin engine oracle neighbours).run moves).Served engine := by
  have orderly := orderly_run (Engine.eventBuffer_pos_of_create created) oracle neighbours moves
  generalize (begin engine oracle neighbours).run moves = s at orderly
  obtain ⟨done, queued⟩ := orderly.queued
  exact {
    inOrder := ⟨orderly.engine, by rw [queued.take_due]; exact queued.does⟩
    notBehind := queued.length_calls_le
    stopped := orderly.stopped
    untouched := orderly.untouched
    answered := fun k ticket exchange there done => by
      cases orderly.numbered k ticket exchange there
      exact ⟨rfl, orderly.answered there done⟩
    unanswered := fun k ticket exchange there left => by
      cases orderly.numbered k ticket exchange there
      exact ⟨rfl, orderly.unanswered there left⟩
    refused := fun _ _ => orderly.submit_eq_error
    events := orderly.events
    progress := orderly.progress
    settled := orderly.settled }

/-- A request that comes behind a shutdown, while the one before is being done, is told that the node has
stopped; the one before gets its answer. -/
theorem serves_in_order_stopping :
    let near : Directory := .ofPeers ⟨"A"⟩ (.ofList [⟨"B"⟩]) .empty
    let s := (begin (Engine.fresh ⟨"A"⟩) (.scripted [] .empty) (.ofList [⟨"B"⟩])).run
      [.request (.trace ⟨"C"⟩), .take, .shutdown, .request (.trace ⟨"D"⟩), .finish near .zero,
        .take, .finish near .zero]
    s.node.alive = false ∧ s.calls.length = s.due.length ∧
      (∃ surroundings id, s.reply? 0 = some
        (.ok ((Engine.fresh ⟨"A"⟩).start surroundings id (.trace ⟨"C"⟩)).result)) ∧
      s.reply? 2 = some (.error (.nodeStopped ⟨"A"⟩)) := by
  intro near s
  have created : Engine.create (.ofPeers ⟨"A"⟩ []) .standard = .ok (Engine.fresh ⟨"A"⟩) := by decide
  have served := serves_in_order created (.scripted [] .empty) (.ofList [⟨"B"⟩])
    [.request (.trace ⟨"C"⟩), .take, .shutdown, .request (.trace ⟨"D"⟩), .finish near .zero,
      .take, .finish near .zero]
  have stopped : s.node.alive = false := rfl
  refine ⟨stopped, (served.stopped stopped).2, ?_, ?_⟩
  · obtain ⟨-, surroundings, id, -, answer⟩ := served.answered 0 0 (.trace ⟨"C"⟩) rfl (by decide)
    exact ⟨surroundings, id, answer⟩
  · exact (served.unanswered 2 2 (.trace ⟨"D"⟩) rfl (by decide)).2

end Service

end TrustMesh
