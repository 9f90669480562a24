import TrustMesh.Proofs.Framework.Outline
import TrustMesh.Proofs.Message.RoundTrip

/-!
# Messages that were relayed

A message that can be decoded from its frame keeps what peers rely on, even where it is not
decoded as it was: its graph if that is sound (`Message.graph?_of_decode`), and what its
framework grants (`Message.framework_of_decode`).

Numbers in the content of a gossip, or beside the fields of a framework, may come back as
other ones.
-/

namespace TrustMesh

/-- The graph that a body carries. -/
def Body.graph? : Body → Option Graph
  | .traceResponse _ graph => some graph
  | .gossip _ _ graph => some graph
  | .complianceResponse graph => some graph
  | _ => none

namespace Message

variable {m n : Message}

/-- A message that can be decoded keeps a graph that is sound. -/
theorem graph?_of_decode (read : decode m.encode = .ok n)
    (sound : ∀ graph, m.body.graph? = some graph → graph.Sound) :
    n.body.graph? = m.body.graph? := by
  have kept : m.body.Lucid → n.body.graph? = m.body.graph? := fun lucid => by
    cases (lucid m.id m.route).symm.trans read
    rfl
  have kind := (kept_of_decode read).2.2
  cases body : m.body with
  | traceResponse target graph =>
    rw [body] at sound kept
    exact kept (Body.lucid_traceResponse target (sound graph rfl))
  | complianceResponse graph =>
    rw [body] at sound kept
    exact kept (Body.lucid_complianceResponse (sound graph rfl))
  | gossip members content graph =>
    rw [body] at sound
    obtain ⟨other, shown, found, same⟩ := gossip_of_decode read body
    rw [Graph.decode_reread (sound graph rfl) .buffer (by decide)] at same
    cases same
    rw [found]
    rfl
  | _ =>
    rw [body] at kind
    cases found : n.body <;> first | rfl | (rw [found] at kind; cases kind)

/-- A request that can be decoded asks for a framework with the outline that was sent. -/
theorem framework_of_decode {framework : Framework} (body : m.body = .complianceRequest framework)
    (proper : framework.Proper) (read : decode m.encode = .ok n) :
    ∃ other, n.body = .complianceRequest other ∧ other.outline = framework.outline := by
  obtain ⟨id, route, own⟩ := m
  subst body
  rw [decode_encode] at read
  split at read
  · rename_i readable
    have whole : (framework.toJson.reread 1).readable = true := by
      simpa [Body.terms, Body.members, Json.rereadMembers, Term.membersReadable, Term.text?]
        using readable
    cases found : Framework.decode .buffer (framework.toJson.reread 1) with
    | error fault =>
      simp [Body.terms, Body.members, Json.rereadMembers, Body.kind, Body.record, Record.decode,
        Record.decodeMembers, Record.readMembers, Field.required, Except.map, found] at read
    | ok other =>
      simp [Body.terms, Body.members, Json.rereadMembers, Body.kind, Body.record, Record.decode,
        Record.decodeMembers, Record.readMembers, Field.required, Except.map, found,
        Record.missing?, Body.ofFields] at read
      subst read
      exact ⟨other, rfl, Framework.outline_of_reread proper whole found⟩
  · cases read

end Message

end TrustMesh
