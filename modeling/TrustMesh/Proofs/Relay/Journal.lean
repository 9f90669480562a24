import TrustMesh.Proofs.Relay.Engine

/-!
# The journal of an engine

An engine is called any number of times: it is handed frames, handed messages, and told
to start exchanges. Its journal lists the calls, each with the engine that it found, so
that all a call brought about can be read off its entry.

What surrounds the engine may change between two calls. Nothing relates a call to the
ones before it, and messages and senders may be forged.
-/

namespace TrustMesh

/-- A step whose result is read in another way. -/
def Step.map {α β : Type} (f : α → β) (step : Step α) : Step β :=
  ⟨f step.result, step.engine, step.offered, step.asked⟩

/-- What an engine is called for: to take the bytes of a message, to take a message, or to start an
exchange under an identifier. -/
inductive Call where
  | frame (s : Surroundings) (sender : Option PeerId) (bytes : Frame)
  | message (s : Surroundings) (sender : Option PeerId) (message : Message)
  | start (s : Surroundings) (id : MessageId) (exchange : Exchange)

/-- The surroundings of a peer with these direct peers, which all accept what they are sent. The peer
holds no credential. -/
def Surroundings.among (own : PeerId) (peers : List PeerId) : Surroundings :=
  ⟨.ofPeers own (.ofList peers) .empty, .scripted [] .empty⟩

/-- What a call returns. -/
inductive Reply where
  | outcome (outcome : Outcome)
  | started (started : Started)
deriving DecidableEq

namespace Call

/-- What surrounds the engine that is called. -/
def surroundings : Call → Surroundings
  | .frame s _ _ => s
  | .message s _ _ => s
  | .start s _ _ => s

/-- The peer that the message of a call came from. -/
def sender? : Call → Option PeerId
  | .frame _ sender _ => sender
  | .message _ sender _ => sender
  | .start .. => none

/-- The message that a call delivers; none if the bytes are not those of a message. -/
def message? : Call → Option Message
  | .frame _ _ bytes => (Message.decode bytes).toOption
  | .message _ _ m => some m
  | .start .. => none

/-- The exchange that a call starts, with its identifier. -/
def started? : Call → Option (MessageId × Exchange)
  | .start _ id exchange => some (id, exchange)
  | _ => none

/-- The identifier of the exchange that a call belongs to. -/
def id? : Call → Option MessageId
  | .start _ id _ => some id
  | c => c.message?.map (·.id)

theorem id?_of_message? {c : Call} {m : Message} (delivered : c.message? = some m) :
    c.id? = some m.id := by
  cases c with
  | start s id exchange => cases delivered
  | frame s sender frame => simp [id?, delivered]
  | message s sender message => simp [id?, delivered]

theorem eq_start_of_started? {c : Call} {id : MessageId} {exchange : Exchange}
    (starts : c.started? = some (id, exchange)) : ∃ s, c = .start s id exchange := by
  cases c with
  | start s own other =>
    cases starts
    exact ⟨s, rfl⟩
  | frame s sender frame => cases starts
  | message s sender message => cases starts

theorem id?_of_started? {c : Call} {id : MessageId} {exchange : Exchange}
    (starts : c.started? = some (id, exchange)) : c.id? = some id := by
  obtain ⟨s, rfl⟩ := eq_start_of_started? starts
  rfl

/-- A call delivers a message, starts an exchange, or belongs to none. -/
theorem sorts (c : Call) : (∃ m, c.message? = some m) ∨
    (∃ id exchange, c.started? = some (id, exchange)) ∨ c.id? = none := by
  cases c with
  | frame s sender bytes =>
    cases delivered : Message.decode bytes with
    | ok m => exact .inl ⟨m, by simp [message?, delivered, Except.toOption]⟩
    | error fault => exact .inr (.inr (by simp [id?, message?, delivered, Except.toOption]))
  | message s sender m => exact .inl ⟨m, rfl⟩
  | start s id exchange => exact .inr (.inl ⟨id, exchange, rfl⟩)

end Call

namespace Engine

/-- All that a call does. -/
def perform (e : Engine) : Call → Step Reply
  | .frame s sender bytes => (e.handleFrame s sender bytes).map .outcome
  | .message s sender m => (e.handle s sender m).map .outcome
  | .start s id exchange => (e.start s id exchange).map .started

/-- The engine after some calls. -/
def run (e : Engine) (calls : List Call) : Engine :=
  calls.foldl (fun e c => (e.perform c).engine) e

/-- An entry of a journal: a call and the engine that it found. -/
structure Entry where
  before : Engine
  call : Call

/-- The entries that some calls leave. -/
def journal : Engine → List Call → List Entry
  | _, [] => []
  | e, c :: rest => ⟨e, c⟩ :: (e.perform c).engine.journal rest

namespace Entry

/-- What the call did. -/
def step (x : Entry) : Step Reply := x.before.perform x.call

/-- The engine that the call left. -/
def after (x : Entry) : Engine := x.step.engine

/-- The messages that the call offered. -/
def offered (x : Entry) : List Dispatch := x.step.offered

/-- What became of the message that the call delivered. -/
def outcome? (x : Entry) : Option Outcome :=
  match x.step.result with
  | .outcome outcome => some outcome
  | .started _ => none

/-- The answer to a call that starts an exchange. -/
def started? (x : Entry) : Option Started :=
  match x.step.result with
  | .outcome _ => none
  | .started started => some started

/-- The event that the call caused. -/
def event? (x : Entry) : Option Event := x.outcome?.bind Outcome.event?

end Entry

variable {e : Engine} {c : Call} {calls : List Call} {id : MessageId} {x : Entry}

/-! ## One call -/

/-- A call that delivers a message is the handling of the message as it came. -/
theorem perform_of_delivered {m : Message} (delivered : c.message? = some m) :
    e.perform c = (e.handle c.surroundings c.sender? m).map .outcome := by
  cases c with
  | frame s sender bytes =>
    cases decoded : Message.decode bytes with
    | ok message =>
      simp only [Call.message?, decoded, Except.toOption, Option.some.injEq] at delivered
      simp only [perform, handleFrame, decoded, delivered, Call.surroundings, Call.sender?]
    | error fault => simp [Call.message?, decoded, Except.toOption] at delivered
  | message s sender message =>
    cases delivered
    rfl
  | start s id exchange => cases delivered

/-- A call that delivers a message is the handling of the message. -/
theorem perform_of_message? {m : Message} (delivered : c.message? = some m) :
    ∃ s sender, e.perform c = (e.handle s sender m).map .outcome :=
  ⟨_, _, perform_of_delivered delivered⟩

/-- A call that belongs to no exchange found bytes that are no message. -/
theorem perform_of_silent (silent : c.id? = none) :
    e.perform c = (e.drop .malformed).map .outcome := by
  cases c with
  | frame s sender bytes =>
    cases decoded : Message.decode bytes with
    | ok message => simp [Call.id?, Call.message?, decoded, Except.toOption] at silent
    | error fault => simp only [perform, handleFrame, decoded]
  | message s sender message => cases silent
  | start s id exchange => cases silent

/-- A call keeps all but what is remembered of its exchange. -/
theorem perform_keeps (belongs : c.id? = some id) : e.Keeps id (e.perform c).engine := by
  rcases c.sorts with ⟨m, delivered⟩ | ⟨own, exchange, starts⟩ | silent
  · cases (Call.id?_of_message? delivered).symm.trans belongs
    obtain ⟨s, sender, same⟩ := perform_of_message? (e := e) delivered
    rw [same]
    exact handle_keeps
  · cases (Call.id?_of_started? starts).symm.trans belongs
    obtain ⟨s, rfl⟩ := Call.eq_start_of_started? starts
    exact start_keeps
  · cases silent.symm.trans belongs

/-- Bytes that are no message change nothing. -/
theorem engine_of_silent (silent : c.id? = none) : (e.perform c).engine = e := by
  rw [perform_of_silent silent]
  rfl

/-- No call changes who an engine is and how it is set up. -/
theorem perform_setup : (e.perform c).engine.identity = e.identity ∧
    (e.perform c).engine.settings = e.settings := by
  cases belongs : c.id? with
  | some id => exact ⟨(perform_keeps belongs).identity, (perform_keeps belongs).settings⟩
  | none =>
    rw [engine_of_silent belongs]
    exact ⟨rfl, rfl⟩

/-- An engine that is new has seen nothing and has no query. -/
theorem eq_of_create {identity : Identity} {settings : Settings}
    (created : create identity settings = .ok e) :
    e = ⟨identity, settings, .empty settings.seenCapacity, .empty settings.seenCapacity⟩ := by
  unfold create at created
  split at created
  · cases created
  · exact (Except.ok.inj created).symm

theorem eventBuffer_pos_of_create {identity : Identity} {settings : Settings}
    (created : create identity settings = .ok e) : 0 < e.settings.eventBuffer := by
  unfold create at created
  split at created
  · cases created
  · rename_i usable
    cases Except.ok.inj created
    refine Nat.pos_of_ne_zero fun zero => ?_
    unfold Settings.fault? at usable
    rw [show settings.eventBuffer = 0 from zero] at usable
    split at usable <;> cases usable

/-- An engine with the standard settings and one identifier that is new. -/
def fresh (own : PeerId) : Engine :=
  ⟨.ofPeers own [], .standard, .empty Settings.standard.seenCapacity,
    .empty Settings.standard.seenCapacity⟩

/-! ## Any number of calls -/

@[simp] theorem run_cons (e : Engine) (c : Call) (rest : List Call) :
    e.run (c :: rest) = (e.perform c).engine.run rest := rfl

theorem run_append (e : Engine) (front rest : List Call) :
    e.run (front ++ rest) = (e.run front).run rest := List.foldl_append

theorem run_concat (e : Engine) (front : List Call) (c : Call) :
    e.run (front ++ [c]) = ((e.run front).perform c).engine := run_append ..

theorem journal_append (e : Engine) (front rest : List Call) :
    e.journal (front ++ rest) = e.journal front ++ (e.run front).journal rest := by
  induction front generalizing e with
  | nil => rfl
  | cons c front ih => simp [journal, ih]

theorem journal_concat (e : Engine) (front : List Call) (c : Call) :
    e.journal (front ++ [c]) = e.journal front ++ [⟨e.run front, c⟩] := journal_append ..

theorem length_journal (e : Engine) (calls : List Call) :
    (e.journal calls).length = calls.length := by
  induction calls generalizing e with
  | nil => rfl
  | cons c rest ih => simp [journal, ih]

theorem getElem?_journal (e : Engine) (calls : List Call) (k : Nat) :
    (e.journal calls)[k]? = calls[k]?.map fun c => ⟨e.run (calls.take k), c⟩ := by
  induction calls generalizing e k with
  | nil => simp [journal]
  | cons c rest ih =>
    cases k with
    | zero => rfl
    | succ k => simp [journal, ih]

/-- The entries are the calls, each with the engine that the calls before it left. -/
theorem mem_journal : x ∈ e.journal calls ↔
    ∃ front rest, calls = front ++ x.call :: rest ∧ x.before = e.run front := by
  constructor
  · intro mem
    induction calls generalizing e with
    | nil => cases mem
    | cons c rest ih =>
      rcases List.mem_cons.1 mem with rfl | later
      · exact ⟨[], rest, rfl, rfl⟩
      · obtain ⟨front, rest, rfl, before⟩ := ih later
        exact ⟨c :: front, rest, rfl, before⟩
  · rintro ⟨front, rest, rfl, before⟩
    have own : x = ⟨e.run front, x.call⟩ := by rw [← before]
    rw [journal_append]
    exact List.mem_append_right _ (own ▸ List.mem_cons_self ..)

/-- What every call keeps holds after any number of calls. -/
theorem run_invariant (holds : Engine → Prop) (start : holds e)
    (kept : ∀ e, ∀ c ∈ calls, holds e → holds (e.perform c).engine) : holds (e.run calls) := by
  induction calls generalizing e with
  | nil => exact start
  | cons c rest ih =>
    exact ih (kept e c (List.mem_cons_self ..) start)
      fun e other mem => kept e other (List.mem_cons_of_mem _ mem)

theorem run_setup (e : Engine) (calls : List Call) :
    (e.run calls).identity = e.identity ∧ (e.run calls).settings = e.settings :=
  run_invariant (fun f => f.identity = e.identity ∧ f.settings = e.settings) ⟨rfl, rfl⟩
    fun _ _ _ same => ⟨perform_setup.1.trans same.1, perform_setup.2.trans same.2⟩

/-- An engine that was created keeps who it is and how it is set up. -/
theorem setup_of_create {identity : Identity} {settings : Settings}
    (created : create identity settings = .ok e) (calls : List Call) :
    (e.run calls).identity = identity ∧ (e.run calls).settings = settings := by
  obtain ⟨same, same'⟩ := run_setup e calls
  rw [same, same', eq_of_create created]
  exact ⟨rfl, rfl⟩

/-- Only exchanges that calls belong to are remembered. -/
theorem perform_within {ids : List MessageId} {capacity : Nat}
    (within : e.seen.entries.Within ids capacity) (known : ∀ id, c.id? = some id → id ∈ ids) :
    (e.perform c).engine.seen.entries.Within ids capacity := by
  cases belongs : c.id? with
  | some id => exact within.stores (perform_keeps belongs).seen (known id belongs)
  | none => rwa [engine_of_silent belongs]

theorem run_within {ids : List MessageId} {capacity : Nat}
    (within : e.seen.entries.Within ids capacity)
    (known : ∀ c ∈ calls, ∀ id, c.id? = some id → id ∈ ids) :
    (e.run calls).seen.entries.Within ids capacity :=
  run_invariant (fun f => f.seen.entries.Within ids capacity) within
    fun _ c mem within => perform_within within (known c mem)

/-- An engine that was created has a memory of the capacity that was set, with each key once. -/
theorem within_run_of_create {identity : Identity} {settings : Settings}
    (created : create identity settings = .ok e) (calls : List Call) :
    (e.run calls).seen.entries.Within (e.run calls).seen.entries.keys settings.seenCapacity := by
  have within : (e.run calls).seen.entries.Within (calls.filterMap Call.id?) settings.seenCapacity :=
    run_within (by rw [eq_of_create created]; exact Recency.within_empty ..)
      fun c mem own belongs => List.mem_filterMap.2 ⟨c, mem, belongs⟩
  exact ⟨within.capacity, within.distinct, fun _ => id⟩

end Engine

end TrustMesh
