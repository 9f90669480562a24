import TrustMesh.Proofs.Mesh.Ledger
import TrustMesh.Proofs.Relay.Passing

/-!
# Exchanges whose messages can be read

Handling a message that is read as it was offers only such messages, unless it is a
gossip, whose graph grows on the way. So all messages of a search can be read, and those
of a compliance query can if its framework can be relayed (`Reaches.legible`).

Nothing is assumed of the messages of other exchanges.
-/

namespace TrustMesh

open Std

/-- A message with a lucid body is read from its frame as it was. -/
theorem Body.Lucid.read {o : Dispatch} (lucid : o.message.body.Lucid) :
    Message.decode o.frame = .ok o.message := lucid o.message.id o.message.route

/-- An exchange whose first message is read as it was and that is no gossip. -/
def Exchange.Lucid : Exchange → Prop
  | .trace _ => True
  | .gossip .. => False
  | .comply framework => framework.Relayable

/-- The first message of a lucid exchange is read as it was. -/
theorem Exchange.Lucid.of_start {exchange : Exchange} (lucid : exchange.Lucid) {e : Engine}
    {s : Surroundings} {id : MessageId} {o : Dispatch}
    (mem : o ∈ (e.start s id exchange).offered) : o.message.body.Lucid := by
  rw [Engine.start_composes mem]
  cases exchange with
  | trace target => exact Body.lucid_traceRequest target
  | gossip members content => exact lucid.elim
  | comply framework => exact Body.lucid_complianceRequest lucid

/-- A lucid exchange has no gossips. -/
theorem Exchange.Lucid.kind_ne {exchange : Exchange} (lucid : exchange.Lucid) {kind : MessageKind}
    (admits : exchange.Admits kind) : kind ≠ .gossip := by
  rintro rfl
  cases exchange with
  | trace target => exact admits
  | gossip members content => exact lucid
  | comply framework => exact admits

namespace Engine

variable {e : Engine} {s : Surroundings} {sender : Option PeerId} {m : Message} {o : Dispatch}

/-- Unless a message is a gossip, what is offered while it is handled repeats its body or answers it
with a sound graph. -/
theorem handle_lucid (lucid : m.body.Lucid) (other : m.body.kind ≠ .gossip)
    (mem : o ∈ (e.handle s sender m).offered) : o.message.body.Lucid := by
  have composed := handle_composes mem
  generalize o.message.body = body at composed ⊢
  cases composed with
  | same => exact lucid
  | found => exact Body.lucid_traceResponse _ (Graph.sound_single ..)
  | grown gossip => exact absurd (by rw [gossip]; rfl) other
  | granted => exact Body.lucid_complianceResponse ((Graph.sound_single ..).addEdge ..)

end Engine

namespace Deployment

variable {d : Deployment} {h : History} {s next : Scene} {deed : Deed} {id : MessageId}
  {peer : PeerId} {exchange : Exchange}

/-- The messages of an exchange were and are read as they were. -/
structure Lucid (h : History) (s : Scene) (id : MessageId) : Prop where
  legible : h.Legible id
  flight : ∀ k ∈ s.flight, k.message.id = id → k.message.body.Lucid

/-- An exchange that was not started has no messages to be read. -/
theorem Ledger.lucid (ledger : d.Ledger h s) (unknown : id ∉ h.startedIds) : Lucid h s id := by
  constructor
  · intro deed there o offer own
    exact absurd (own ▸ ledger.offered deed there o offer) unknown
  · intro k there own
    obtain ⟨_, _, began, -⟩ := ledger.exchanges k there
    exact absurd (own ▸ began.mem) unknown

/-- The messages of an exchange are read as they were after a deed if those are that it offered. -/
theorem Lucid.after (lucid : Lucid h s id) {rest : Multiset Packet} (fewer : rest ≤ s.flight)
    (engine : Engine) (offers : ∀ o ∈ deed.offered, o.message.id = id → o.message.body.Lucid) :
    Lucid (h ++ [deed]) (s.after peer engine rest deed.offered) id := by
  constructor
  · intro other there o offer own
    rcases List.mem_append.1 there with before | last
    · exact lucid.legible other before o offer own
    · cases List.mem_singleton.1 last
      exact (offers o offer own).read
  · intro k there own
    rcases Scene.mem_flight_after there with old | ⟨o, offer, -, read⟩
    · exact lucid.flight k (Multiset.mem_of_le fewer old) own
    · have mine : o.message.id = id := (Message.kept_of_decode read).1.symm.trans own
      rw [Except.ok.inj (read.symm.trans (offers o offer mine).read)]
      exact offers o offer mine

/-- Every deed after its start keeps the messages of a lucid exchange readable. -/
theorem Lucid.advance (lucid : Lucid h s id) (ledger : d.Ledger h s)
    (advance : d.Advance s deed next) (distinct : (h ++ [deed]).startedIds.Nodup)
    (started : h.Started peer id exchange) (clear : exchange.Lucid) :
    Lucid (h ++ [deed]) next id := by
  cases advance with
  | @start m mem ticket other begun step call =>
    subst call
    refine lucid.after le_rfl _ fun o offer own => ?_
    have same : other = id := (Engine.start_offers offer).1.symm.trans own
    exact absurd (same ▸ started.mem) (History.unknown_of_nodup distinct rfl)
  | @handle m mem k rest taken arrived other frame read step call =>
    subst call
    have there : k ∈ s.flight := taken ▸ Multiset.mem_cons_self ..
    refine lucid.after (taken ▸ Multiset.le_cons_self ..) _ fun o offer own => ?_
    have mine : k.message.id = id := (Engine.handle_onward offer).id.symm.trans own
    obtain ⟨_, begun, began, -, admits, -⟩ := ledger.exchanges k there
    obtain ⟨-, rfl⟩ :=
      History.Started.unique (History.nodup_startedIds distinct) started (mine ▸ began)
    exact Engine.handle_lucid (lucid.flight k there mine) (clear.kind_ne admits) offer
  | idle idle =>
    refine ⟨fun other there o offer own => ?_, lucid.flight⟩
    rcases List.mem_append.1 there with before | last
    · exact lucid.legible other before o offer own
    · rw [List.mem_singleton.1 last, idle.offered] at offer
      cases offer

/-- All messages of a lucid exchange can be read, whatever becomes of other exchanges. -/
theorem Reaches.legible (reaches : d.Reaches h s) (distinct : h.startedIds.Nodup)
    (started : h.Started peer id exchange) (clear : exchange.Lucid) : h.Legible id := by
  refine (reaches.sinceStart (fun h => h.startedIds.Nodup) (fun h s => Lucid h s id)
    History.nodup_startedIds ?_ ?_ distinct started).legible
  · intro h s deed next reaches advance distinct own began
    have unknown := History.unknown_of_nodup distinct began
    obtain ⟨m, mem, same⟩ := (reaches.advance advance).ledger.starters _ _ _
      (h.started_concat own began)
    obtain ⟨ticket, step, rfl, rfl, rfl⟩ := advance.call_of_started mem (own.trans same.symm) began
    exact (reaches.ledger.lucid unknown).after le_rfl _ fun o offer _ => clear.of_start offer
  · intro h s deed next reaches advance distinct started lucid
    exact lucid.advance reaches.ledger advance distinct started clear

end Deployment

end TrustMesh
