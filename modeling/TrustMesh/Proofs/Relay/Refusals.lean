import TrustMesh.Proofs.Relay.Recipients

/-!
# Frames that are refused

A directory may refuse any frame that is queued. What an engine makes of a call does not
depend on it: under two directories that differ in what they refuse, a call offers the same
frames over the same channels in the same order, causes the same event or is dropped for the
same reason, and leaves the same engine. Only the recipients differ: they are the peers that
accept their frame (`Engine.refusals_are_contained`). So it is for any number of calls, each
with refusals of its own (`Engine.run_elsewhere`).
-/

namespace TrustMesh

/-- Two directories that know the same peers over the same channels. They may refuse different
frames. -/
structure Directory.Agrees (d other : Directory) : Prop where
  connected : other.connected = d.connected
  resolve : other.resolve = d.resolve

theorem Directory.Agrees.eq_with_send {d other : Directory} (agrees : d.Agrees other) :
    other = { d with send := other.send } := by
  obtain ⟨connected, resolve⟩ := agrees
  rw [← connected, ← resolve]

/-- The surroundings with another directory. -/
def Surroundings.through (s : Surroundings) (d : Directory) : Surroundings :=
  { s with directory := d }

/-- The call with another directory. -/
def Call.through (d : Directory) : Call → Call
  | .frame s sender bytes => .frame (s.through d) sender bytes
  | .message s sender m => .message (s.through d) sender m
  | .start s id exchange => .start (s.through d) id exchange

@[simp] theorem Call.surroundings_through (d : Directory) (c : Call) :
    (c.through d).surroundings = c.surroundings.through d := by
  cases c <;> rfl

/-- The outcome with other recipients. A message that was dropped has none. -/
def Outcome.reporting (sent : List PeerId) : Outcome → Outcome
  | .handled _ event => .handled sent event
  | .dropped reason => .dropped reason

namespace Reply

/-- The reply with other recipients. -/
def reporting (sent : List PeerId) : Reply → Reply
  | .outcome result => .outcome (result.reporting sent)
  | .started result => .started { result with sent }

/-- The event that a call caused. -/
def event? : Reply → Option Event
  | .outcome result => result.event?
  | .started _ => none

/-- The reason why the message of a call was dropped. -/
def dropReason? : Reply → Option DropReason
  | .outcome result => result.dropReason?
  | .started _ => none

/-- The identifier of the exchange that a call started. -/
def id? : Reply → Option MessageId
  | .outcome _ => none
  | .started result => some result.id

/-- A reply with other recipients tells the same about the message and about the exchange. -/
theorem same_of_reporting (sent : List PeerId) (reply : Reply) :
    (reply.reporting sent).event? = reply.event? ∧
      (reply.reporting sent).dropReason? = reply.dropReason? ∧
      (reply.reporting sent).id? = reply.id? := by
  rcases reply with result | result
  · cases result <;> exact ⟨rfl, rfl, rfl⟩
  · exact ⟨rfl, rfl, rfl⟩

end Reply

namespace Engine

variable {e : Engine} {s : Surroundings} {sender : Option PeerId} {m : Message} {id : MessageId}
  {c : Call} {d : Directory}

/-! ## One lemma per kind of call -/

/-- A message is handled in the same way whatever is refused. -/
theorem handle_through (agrees : s.directory.Agrees d) :
    e.handle (s.through d) sender m =
      { e.handle s sender m with
        result := (e.handle s sender m).result.reporting
          (d.recipients (e.handle s sender m).offered) } := by
  rw [agrees.eq_with_send]
  have hop : ReturnHop.ofRoute m.route e.identity { s.directory with send := d.send } =
      ReturnHop.ofRoute m.route e.identity s.directory := rfl
  cases body : m.body with
  | traceRequest target =>
    simp only [handle, body, onTraceRequest, Surroundings.through]
    repeat' split
    all_goals rfl
  | traceResponse target graph =>
    simp only [handle, body, onTraceResponse, Surroundings.through, hop]
    split <;> rfl
  | gossip members content graph =>
    simp only [handle, body, onGossip, Surroundings.through]
    split <;> rfl
  | complianceRequest framework =>
    simp only [handle, body, onComplianceRequest, Surroundings.through]
    repeat' split
    all_goals rfl
  | complianceResponse graph =>
    simp only [handle, body, onComplianceResponse, Surroundings.through, hop]
    split <;> rfl

/-- An exchange is started in the same way whatever is refused. -/
theorem start_through {exchange : Exchange} (agrees : s.directory.Agrees d) :
    e.start (s.through d) id exchange =
      { e.start s id exchange with
        result := { (e.start s id exchange).result with
          sent := d.recipients (e.start s id exchange).offered } } := by
  rw [agrees.eq_with_send]
  cases exchange with
  | trace target =>
    simp only [start, startTrace, Surroundings.through]
    split <;> rfl
  | gossip members content => rfl
  | comply framework => rfl

/-- A call does the same whatever is refused, and reports the peers that accept what is offered. -/
theorem perform_through (e : Engine) (agrees : c.surroundings.directory.Agrees d) :
    e.perform (c.through d) =
      { e.perform c with
        result := (e.perform c).result.reporting (d.recipients (e.perform c).offered) } := by
  cases c with
  | frame s sender bytes =>
    replace agrees : s.directory.Agrees d := agrees
    simp only [Call.through, perform, handleFrame]
    split
    · rw [handle_through agrees]
      rfl
    · rfl
  | message s sender m =>
    replace agrees : s.directory.Agrees d := agrees
    simp only [Call.through, perform, handle_through agrees]
    rfl
  | start s id exchange =>
    replace agrees : s.directory.Agrees d := agrees
    simp only [Call.through, perform, start_through agrees]
    rfl

/-! ## Any number of calls -/

/-- A call that is made where other frames are refused. -/
structure Elsewhere (c other : Call) : Prop where
  agrees : c.surroundings.directory.Agrees other.surroundings.directory
  same : other = c.through other.surroundings.directory

/-- Calls that are made where other frames are refused leave the same engine, and each of them finds
the same engine. -/
theorem run_elsewhere {calls others : List Call} (elsewhere : calls.Forall₂ Elsewhere others)
    (e : Engine) : e.run others = e.run calls ∧
      (e.journal others).map Entry.before = (e.journal calls).map Entry.before := by
  induction elsewhere generalizing e with
  | nil => exact ⟨rfl, rfl⟩
  | @cons c other calls others head _ ih =>
    have same : (e.perform other).engine = (e.perform c).engine := by
      rw [head.same, perform_through e head.agrees]
    obtain ⟨last, found⟩ := ih (e.perform c).engine
    simp only [run_cons, journal, List.map_cons, same]
    exact ⟨last, congrArg (_ :: ·) found⟩

/-! ## One call -/

/-- Two directories that know the same peers over the same channels and differ in the frames that they
refuse. Under both, a call leaves the same engine, offers the same, asks the oracle the same, and
causes the same event or is dropped for the same reason; each time the recipients are the peers that
accept what is offered, in order. -/
theorem refusals_are_contained (e : Engine) (c : Call) (d : Directory)
    (agrees : c.surroundings.directory.Agrees d) :
    let step := e.perform c
    let other := e.perform (c.through d)
    other.engine = step.engine ∧
      (other.offered = step.offered ∧ other.asked = step.asked) ∧
      (other.result.event? = step.result.event? ∧
        other.result.dropReason? = step.result.dropReason? ∧ other.result.id? = step.result.id?) ∧
      step.result.recipients = (step.offered.filter fun o =>
        c.surroundings.directory.accepts o.link o.frame).map (·.link.far) ∧
      other.result.recipients =
        (step.offered.filter fun o => d.accepts o.link o.frame).map (·.link.far) := by
  intro step other
  have told : other =
      { step with result := step.result.reporting (d.recipients step.offered) } :=
    perform_through e agrees
  have sent : other.result.recipients = d.recipients other.offered := by
    have reported := perform_recipients e (c.through d)
    rwa [Call.surroundings_through] at reported
  rw [told] at sent ⊢
  exact ⟨rfl, ⟨rfl, rfl⟩, Reply.same_of_reporting _ _, perform_recipients e c, sent⟩

/-- A query is answered and spread where one neighbour refuses its frames, and where two others do. -/
theorem refusals_are_contained_query :
    let peers : OrderedSet PeerId := .ofList [⟨"B"⟩, ⟨"C"⟩, ⟨"D"⟩]
    let d : Directory := .ofPeers ⟨"A"⟩ peers (.ofList [⟨"C"⟩])
    let other : Directory := .ofPeers ⟨"A"⟩ peers (.ofList [⟨"B"⟩, ⟨"D"⟩])
    let c : Call := .message ⟨d, .scripted [] .empty⟩ (some ⟨"B"⟩)
      ⟨.zero, [⟨"X"⟩, ⟨"B"⟩], .complianceRequest Framework.record.start⟩
    let step := (fresh ⟨"A"⟩).perform c
    let step' := (fresh ⟨"A"⟩).perform (c.through other)
    d.Agrees other ∧ step'.engine = step.engine ∧ step'.offered = step.offered ∧
      destinations step.offered = [⟨"B"⟩, ⟨"C"⟩, ⟨"D"⟩] ∧
      step.result.recipients = [⟨"B"⟩, ⟨"D"⟩] ∧ step'.result.recipients = [⟨"C"⟩] := by
  intro peers d other c step step'
  have agrees : d.Agrees other := ⟨rfl, rfl⟩
  obtain ⟨engine, ⟨offered, -⟩, -, sent, sent'⟩ :=
    refusals_are_contained (fresh ⟨"A"⟩) c other agrees
  refine ⟨agrees, engine, offered, by decide, sent.trans ?_, sent'.trans ?_⟩
  · decide
  · decide

end Engine

end TrustMesh
