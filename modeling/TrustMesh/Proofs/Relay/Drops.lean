import TrustMesh.Proofs.Message.Codec
import TrustMesh.Proofs.Relay.Forwarding
import TrustMesh.Proofs.Relay.Treatment

/-!
# What is left of a message that is dropped

A message that is dropped is passed on to nobody and the oracle is not asked about it.
`Engine.Drops` lists the engines that a drop can leave, one case per reason: bytes that
cannot be read, a route that ends or has passed this node leave the engine as it was, and a
message of an exchange that is remembered makes that exchange the most recent one
(`Engine.dropped_without_effect`).

A request that nobody can be answered for is the exception. It is dropped after its
exchange was remembered.
-/

namespace TrustMesh

namespace Engine

variable {e : Engine} {s : Surroundings} {sender : Option PeerId} {m : Message}
  {reason : DropReason} {next : Engine}

/-- The engine that is left when a message is dropped. -/
inductive Drops (e : Engine) (m : Message) : DropReason → Engine → Prop where
  | looped (passed : (m.hasLoop || e.onRoute m) = true) : Drops e m .routeLoop e
  | lost (answers : m.body.kind.isAnswer = true) : Drops e m .deadEnd e
  | repeated (known : e.seen.contains m.id = true) :
      Drops e m .duplicate { e with seen := ⟨e.seen.entries.touch m.id⟩ }
  | unchanged (known : e.seen.contains m.id = true) :
      Drops e m .unchanged { e with seen := ⟨e.seen.entries.touch m.id⟩ }
  | unanswerable {reason : DropReason}
      (unsourced : reason = .noPreviousHop ∨ reason = .unknownSender)
      (asks : m.body.kind.isRequest = true) (unpassed : e.Unpassed m)
      (forgets : e.settings.remembers m.body.kind = false) : Drops e m reason e
  | unanswerableMarked {reason : DropReason}
      (unsourced : reason = .noPreviousHop ∨ reason = .unknownSender)
      (asks : m.body.kind.isRequest = true) (unpassed : e.Unpassed m)
      (remembers : e.settings.remembers m.body.kind = true)
      (new : e.seen.contains m.id = false) :
      Drops e m reason { e with seen := ⟨e.seen.entries.put m.id none⟩ }

/-! ## One lemma per handler -/

theorem onTraceRequest_drops {target : PeerId} (asks : m.body = .traceRequest target)
    (dropped : (e.onTraceRequest s m target).result = .dropped reason) :
    ∃ next, e.Drops m reason next ∧ e.onTraceRequest s m target = next.drop reason := by
  have request : m.body.kind.isRequest = true := by rw [asks]; rfl
  have remembers : e.settings.remembers m.body.kind = true := by rw [asks]; rfl
  unfold onTraceRequest at dropped ⊢
  split at dropped
  · rename_i passed
    cases dropped
    exact ⟨e, .looped passed, if_pos passed⟩
  · rename_i passable
    rw [if_neg passable]
    have unpassed := unpassed_of_not passable
    cases known : e.seen.contains m.id with
    | true =>
      simp only [SeenCache.mark_of_contains known] at dropped ⊢
      cases dropped
      exact ⟨_, .repeated known, rfl⟩
    | false =>
      simp only [SeenCache.mark_of_new known, Bool.not_true, Bool.false_eq_true, if_false]
        at dropped ⊢
      split at dropped
      · rename_i own
        rw [if_pos own]
        split at dropped
        · cases dropped
          exact ⟨_, .unanswerableMarked (.inl rfl) request unpassed remembers known, rfl⟩
        · cases dropped
      · split at dropped <;> cases dropped

theorem onTraceResponse_drops {target : PeerId} {graph : Graph}
    (answers : m.body = .traceResponse target graph)
    (dropped : (e.onTraceResponse s m target graph).result = .dropped reason) :
    ∃ next, e.Drops m reason next ∧ e.onTraceResponse s m target graph = next.drop reason := by
  unfold onTraceResponse at dropped ⊢
  split at dropped
  · cases dropped
  · cases dropped
  · cases dropped
    exact ⟨e, .lost (by rw [answers]; rfl), rfl⟩

theorem onGossip_drops {members : List PeerId} {content : Json} {graph : Graph}
    (dropped : (e.onGossip s sender m members content graph).result = .dropped reason) :
    ∃ next, e.Drops m reason next ∧
      e.onGossip s sender m members content graph = next.drop reason := by
  unfold onGossip at dropped ⊢
  simp only at dropped ⊢
  split at dropped
  · rename_i unchanged
    cases dropped
    obtain ⟨known, kept⟩ := SeenCache.observe_of_unchanged unchanged
    exact ⟨_, .unchanged known, by rw [kept]⟩
  · cases dropped
  · cases dropped

theorem onComplianceRequest_drops {framework : Framework}
    (asks : m.body = .complianceRequest framework)
    (dropped : (e.onComplianceRequest s sender m framework).result = .dropped reason) :
    ∃ next, e.Drops m reason next ∧
      e.onComplianceRequest s sender m framework = next.drop reason := by
  have request : m.body.kind.isRequest = true := by rw [asks]; rfl
  have remembers : e.settings.remembers m.body.kind = e.settings.complianceDedup := by
    rw [asks]
    rfl
  unfold onComplianceRequest at dropped ⊢
  split at dropped
  · rename_i passed
    cases dropped
    exact ⟨e, .looped passed, if_pos passed⟩
  · rename_i passable
    rw [if_neg passable]
    have unpassed := unpassed_of_not passable
    cases dedup : e.settings.complianceDedup with
    | false =>
      simp only [admitQuery, dedup, Bool.false_eq_true, if_false, Bool.not_true] at dropped ⊢
      split at dropped
      · cases dropped
        exact ⟨e, .unanswerable (.inr rfl) request unpassed (remembers.trans dedup), rfl⟩
      · cases dropped
    | true =>
      simp only [admitQuery, dedup, if_true] at dropped ⊢
      cases known : e.seen.contains m.id with
      | true =>
        simp only [SeenCache.mark_of_contains known] at dropped ⊢
        cases dropped
        exact ⟨_, .repeated known, rfl⟩
      | false =>
        simp only [SeenCache.mark_of_new known, Bool.not_true, Bool.false_eq_true, if_false]
          at dropped ⊢
        split at dropped
        · cases dropped
          exact ⟨_, .unanswerableMarked (.inr rfl) request unpassed (remembers.trans dedup) known,
            rfl⟩
        · cases dropped

theorem onComplianceResponse_drops {graph : Graph} (answers : m.body = .complianceResponse graph)
    (dropped : (e.onComplianceResponse s m graph).result = .dropped reason) :
    ∃ next, e.Drops m reason next ∧ e.onComplianceResponse s m graph = next.drop reason := by
  unfold onComplianceResponse at dropped ⊢
  split at dropped
  · cases dropped
  · cases dropped
  · cases dropped
    exact ⟨e, .lost (by rw [answers]; rfl), rfl⟩

/-- A message that is dropped leaves one of these engines, and nothing else comes of it. -/
theorem handle_drops (dropped : (e.handle s sender m).result = .dropped reason) :
    ∃ next, e.Drops m reason next ∧ e.handle s sender m = next.drop reason := by
  cases body : m.body with
  | traceRequest target =>
    simp only [handle, body] at dropped ⊢
    exact onTraceRequest_drops body dropped
  | traceResponse target graph =>
    simp only [handle, body] at dropped ⊢
    exact onTraceResponse_drops body dropped
  | gossip members content graph =>
    simp only [handle, body] at dropped ⊢
    exact onGossip_drops dropped
  | complianceRequest framework =>
    simp only [handle, body] at dropped ⊢
    exact onComplianceRequest_drops body dropped
  | complianceResponse graph =>
    simp only [handle, body] at dropped ⊢
    exact onComplianceResponse_drops body dropped

/-! ## Frames -/

/-- An engine that was created keeps its memory of exchanges in order. -/
theorem sound_run_of_create {identity : Identity} {settings : Settings}
    (created : create identity settings = .ok e) (calls : List Call) :
    (e.run calls).seen.entries.Sound := by
  have start : e.seen.entries.Sound := by
    rw [eq_of_create created]
    exact Recency.sound_empty _
  refine run_invariant (fun f => f.seen.entries.Sound) start fun f c _ sound => ?_
  cases belongs : c.id? with
  | some id => exact sound.stores (perform_keeps belongs).seen
  | none => rwa [engine_of_silent belongs]

/-- A frame that is dropped is no message, or the message in it is dropped. -/
theorem handleFrame_drops {frame : Frame}
    (dropped : (e.handleFrame s sender frame).result = .dropped reason) :
    (reason = .malformed ∧ e.handleFrame s sender frame = e.drop .malformed) ∨
      ∃ m next, Message.decode frame = .ok m ∧ e.Drops m reason next ∧
        e.handleFrame s sender frame = next.drop reason := by
  cases decoded : Message.decode frame with
  | ok m =>
    simp only [handleFrame, decoded] at dropped ⊢
    obtain ⟨next, drops, same⟩ := handle_drops dropped
    exact .inr ⟨m, next, rfl, drops, same⟩
  | error fault =>
    simp only [handleFrame, decoded] at dropped
    cases dropped
    exact .inl ⟨rfl, by simp only [handleFrame, decoded]⟩

/-- A frame that an engine drops, whatever came before, is passed on to nobody and the oracle is asked
nothing. If it cannot be read, its route has a loop, or there is no way back, the engine stays as it
was; if its exchange is known, at most the recency of that exchange changes. -/
theorem dropped_without_effect {identity : Identity} {settings : Settings}
    (created : create identity settings = .ok e) (calls : List Call) (s : Surroundings)
    (sender : Option PeerId) (frame : Frame)
    (dropped : ((e.run calls).handleFrame s sender frame).result = .dropped reason) :
    let before := e.run calls
    let step := before.handleFrame s sender frame
    (step.offered = [] ∧ step.asked = []) ∧
      (reason = .malformed ∨ reason = .routeLoop ∨ reason = .deadEnd → step.engine = before) ∧
      (reason = .duplicate ∨ reason = .unchanged →
        ∃ m, Message.decode frame = .ok m ∧
          step.engine = { before with seen := step.engine.seen } ∧
          before.seen.entries.Refreshed m.id step.engine.seen.entries) := by
  intro before step
  have sound : before.seen.entries.Sound := sound_run_of_create created calls
  rcases handleFrame_drops dropped with ⟨rfl, same⟩ | ⟨m, next, decoded, drops, same⟩
  · have kept : step = before.drop .malformed := same
    rw [kept]
    exact ⟨⟨rfl, rfl⟩, fun _ => rfl, fun known => by simp at known⟩
  · have left : step = next.drop reason := same
    rw [left]
    refine ⟨⟨rfl, rfl⟩, ?_⟩
    cases drops with
    | looped => exact ⟨fun _ => rfl, by simp⟩
    | lost => exact ⟨fun _ => rfl, by simp⟩
    | repeated => exact ⟨by simp, fun _ => ⟨m, decoded, rfl, sound.refreshed_touch m.id⟩⟩
    | unchanged => exact ⟨by simp, fun _ => ⟨m, decoded, rfl, sound.refreshed_touch m.id⟩⟩
    | unanswerable unsourced => rcases unsourced with rfl | rfl <;> simp
    | unanswerableMarked unsourced => rcases unsourced with rfl | rfl <;> simp

/-- Of two searches that were heard, the first one comes again. It is passed on to nobody, and the only
change is that it is now the more recent one. -/
theorem dropped_without_effect_again :
    let s : Surroundings := .among ⟨"B"⟩ [⟨"A"⟩, ⟨"C"⟩]
    let search : Nat → Message := fun n => ⟨.ofNat n, [⟨"A"⟩], .traceRequest ⟨"D"⟩⟩
    let calls : List Call := [.message s none (search 1), .message s none (search 2)]
    let before := (fresh ⟨"B"⟩).run calls
    let step := before.handleFrame s none (search 1).encode
    step.result = .dropped .duplicate ∧ step.offered = [] ∧
      before.seen.entries.keys = [.ofNat 2, .ofNat 1] ∧
      step.engine.seen.entries.keys = [.ofNat 1, .ofNat 2] ∧
      before.seen.entries.Refreshed (search 1).id step.engine.seen.entries := by
  intro s search calls
  have created : create (.ofPeers ⟨"B"⟩ []) .standard = .ok (fresh ⟨"B"⟩) := by decide
  have decoded : Message.decode (search 1).encode = .ok (search 1) :=
    Body.lucid_traceRequest ⟨"D"⟩ (.ofNat 1) [⟨"A"⟩]
  have handled : ((fresh ⟨"B"⟩).run calls).handleFrame s none (search 1).encode =
      ((fresh ⟨"B"⟩).run calls).handle s none (search 1) := by
    simp only [handleFrame, decoded]
  have dropped : (((fresh ⟨"B"⟩).run calls).handleFrame s none (search 1).encode).result =
      .dropped .duplicate := by
    rw [handled]
    decide
  obtain ⟨⟨silent, -⟩, -, again⟩ := dropped_without_effect created calls s none _ dropped
  obtain ⟨m, read, -, refreshed⟩ := again (.inl rfl)
  obtain rfl : search 1 = m := Except.ok.inj (decoded.symm.trans read)
  refine ⟨dropped, silent, by decide, ?_, refreshed⟩
  rw [handled]
  decide

end Engine

end TrustMesh
