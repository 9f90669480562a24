import Mathlib.Logic.Relation
import TrustMesh.Proofs.Framework.Relaying

/-!
# Frameworks that reach every peer

A framework endures if one more peer can always read what has become of it on the way
(`Framework.Enduring`). Numbers that it does not interpret may be read as other ones at each
peer, so that it is never the same again; its outline is (`Framework.Hop.kept`).

The outline of a framework has no numbers and does not nest deeply. It is read as it was
(`Framework.Proper.relayable_outline`), so it endures whatever becomes of the framework.
-/

namespace TrustMesh

open Std

/-! ## Outlines -/

/-- The members of the outline of a condition are texts. -/
theorem Condition.texts_outline (c : Condition) {m : String × Json}
    (there : m ∈ c.outline.members.entries) : ∃ text, m.2 = .text text := by
  cases c with
  | schema reference issuer =>
    have mem := OrderedMap.mem_entries_ofList there
    cases issuer with
    | none => exact ⟨reference, by rw [List.mem_singleton.1 mem]⟩
    | some name =>
      simp only [optionalMember, List.mem_cons, List.not_mem_nil, or_false] at mem
      rcases mem with rfl | rfl
      · exact ⟨reference, rfl⟩
      · exact ⟨name, rfl⟩
  | identity participant =>
    exact ⟨participant, by rw [List.mem_singleton.1 (OrderedMap.mem_entries_ofList there)]⟩
  | credDef definition =>
    exact ⟨definition, by rw [List.mem_singleton.1 (OrderedMap.mem_entries_ofList there)]⟩
  | unrecognized members => cases there

theorem Condition.Settled.outline {c : Condition} (settled : c.Settled) : c.outline.Settled := by
  cases c with
  | unrecognized members => exact ⟨rfl, fun _ there => nomatch there⟩
  | _ => exact settled

theorem Condition.plain_outline (c : Condition) :
    c.outline.toJson.Exact ∧ c.outline.toJson.depth ≤ 1 := by
  constructor
  · refine Json.membersExact_iff.2 fun m there => ?_
    obtain ⟨text, same⟩ := c.texts_outline there
    exact same ▸ trivial
  · have flat : Json.membersDepth c.outline.members.entries ≤ 0 :=
      Json.membersDepth_le_iff.2 fun m there => by
        obtain ⟨text, same⟩ := c.texts_outline there
        exact same ▸ Nat.le_refl 0
    rw [toJson, Json.depth]
    omega

theorem LedgerEntry.plain_outline (e : LedgerEntry) :
    e.outline.toJson.Exact ∧ e.outline.toJson.depth ≤ 1 := by
  obtain ⟨id, _ | name, extra⟩ := e
  · exact ⟨⟨trivial, trivial⟩, Nat.le_refl 1⟩
  · exact ⟨⟨trivial, trivial, trivial⟩, Nat.le_refl 1⟩

theorem Participant.plain_outline (p : Participant) :
    p.outline.toJson.Exact ∧ p.outline.toJson.depth ≤ 1 := by
  obtain ⟨id, _ | name, _ | did, extra⟩ := p
  · exact ⟨⟨trivial, trivial⟩, Nat.le_refl 1⟩
  · exact ⟨⟨trivial, trivial, trivial⟩, Nat.le_refl 1⟩
  · exact ⟨⟨trivial, trivial, trivial⟩, Nat.le_refl 1⟩
  · exact ⟨⟨trivial, trivial, trivial, trivial⟩, Nat.le_refl 1⟩

theorem Requirement.conditions_outline (r : Requirement) :
    r.outline.conditions = r.conditions.map Condition.outline := by
  cases r <;> rfl

theorem Requirement.Settled.outline {r : Requirement} (settled : r.Settled) :
    r.outline.Settled := by
  rw [Settled, conditions_outline]
  exact List.forall_mem_map.2 fun c there => (settled c there).outline

theorem Requirement.plain_outline (r : Requirement) :
    r.outline.toJson.Exact ∧ r.outline.toJson.depth ≤ 3 := by
  have plain : ∀ c ∈ r.outline.conditions, c.toJson.Exact ∧ c.toJson.depth ≤ 1 := by
    rw [conditions_outline]
    exact List.forall_mem_map.2 fun c _ => c.plain_outline
  constructor
  · have exactly := Json.itemsExact_map fun c there => (plain c there).1
    cases r <;> exact ⟨exactly, trivial⟩
  · have shallow := Json.itemsDepth_map_le fun c there => (plain c there).2
    rw [depth_toJson]
    omega

theorem Rule.plain_outline (r : Rule) : r.outline.toJson.Exact ∧ r.outline.toJson.depth ≤ 4 := by
  obtain ⟨exactly, shallow⟩ := r.requirement.plain_outline
  refine ⟨⟨Json.itemsExact_map fun _ _ => trivial, exactly, trivial⟩, ?_⟩
  have same : r.outline.requirement = r.requirement.outline := rfl
  rw [depth_toJson, same]
  omega

namespace Framework

variable {f g h : Framework}

theorem outline_outline (f : Framework) : f.outline.outline = f.outline := by
  have entries : LedgerEntry.outline ∘ LedgerEntry.outline = LedgerEntry.outline := rfl
  have participants : Participant.outline ∘ Participant.outline = Participant.outline := rfl
  have conditions : Condition.outline ∘ Condition.outline = Condition.outline :=
    funext fun c => by cases c <;> rfl
  have rules : Rule.outline ∘ Rule.outline = Rule.outline := funext fun ⟨grant, r⟩ => by
    cases r <;> simp [Rule.outline, Requirement.outline, conditions]
  simp only [outline, List.map_map, entries, participants, rules]

/-- The outline of a proper framework is proper. -/
theorem Proper.outline (proper : f.Proper) : f.outline.Proper where
  schemas := List.forall_mem_map.2 fun _ _ _ there => nomatch there
  credDefs := List.forall_mem_map.2 fun _ _ _ there => nomatch there
  participants := List.forall_mem_map.2 fun _ _ _ there => nomatch there
  permissions := List.forall_mem_map.2 fun r mem =>
    Requirement.Settled.outline (proper.permissions r mem)
  extra := fun _ there => nomatch there

/-- The outline of a framework has no numbers. -/
theorem exact_outline (f : Framework) : f.outline.toJson.Exact := by
  have schemas := Json.itemsExact_map (List.forall_mem_map.2 fun e (_ : e ∈ f.schemas) =>
    e.plain_outline.1)
  have participants := Json.itemsExact_map (List.forall_mem_map.2 fun p
    (_ : p ∈ f.participants) => p.plain_outline.1)
  have permissions := Json.itemsExact_map (List.forall_mem_map.2 fun r
    (_ : r ∈ f.permissions) => r.plain_outline.1)
  have roles : Json.ItemsExact (f.roles.map .text) := Json.itemsExact_map fun _ _ => trivial
  have credDefs : Json.MembersExact (credDefsMember f.outline.credDefs) := by
    unfold credDefsMember
    split
    · trivial
    · exact ⟨Json.itemsExact_map (List.forall_mem_map.2 fun e _ => e.plain_outline.1), trivial⟩
  simp only [toJson, Json.Exact, Json.membersExact_append, Json.MembersExact]
  exact ⟨⟨⟨⟨schemas, trivial⟩, credDefs⟩, participants, roles, permissions, trivial⟩, trivial⟩

/-- The outline of a framework nests six containers at most. -/
theorem depth_outline_le (f : Framework) : f.outline.toJson.depth ≤ 6 := by
  have fits : f.outline.Fits 0 := by
    constructor
    · exact List.forall_mem_map.2 fun e _ => e.plain_outline.2
    · exact List.forall_mem_map.2 fun e _ => e.plain_outline.2
    · exact List.forall_mem_map.2 fun p _ => p.plain_outline.2
    · exact List.forall_mem_map.2 fun r _ => r.plain_outline.2
    · exact Nat.le_refl 0
  exact fits.depth_toJson_le

/-- The outline of a framework is read as it was. -/
theorem Proper.relayable_outline (proper : f.Proper) : f.outline.Relayable := by
  have shallow := f.depth_outline_le
  have least : 7 ≤ maximalDepth := by decide
  exact proper.outline.relayable f.exact_outline (by omega)

/-! ## On the way -/

/-- The next peer reads `g` from a request for `f`. -/
def Hop (f g : Framework) : Prop :=
  Message.decode (Message.encode ⟨.zero, [], .complianceRequest f⟩) =
    .ok ⟨.zero, [], .complianceRequest g⟩

/-- Wherever the framework gets, one more peer can read what has become of it. -/
def Enduring (f : Framework) : Prop := ∀ g, Relation.ReflTransGen Hop f g → ∃ h, g.Hop h

/-- The next peer reads the same framework from every request for it. -/
theorem Hop.read (hop : f.Hop g) (id : MessageId) (route : List PeerId) :
    Message.decode (Message.encode ⟨id, route, .complianceRequest f⟩) =
      .ok ⟨id, route, .complianceRequest g⟩ := by
  have alone : Message.decode (Message.encode ⟨.zero, [], .complianceRequest f⟩) =
      .ok ⟨.zero, [], .complianceRequest g⟩ := hop
  rw [Message.decode_encode_body id .zero route [], alone]
  rfl

/-- What the next peer reads is proper again and has the same outline. -/
theorem Hop.kept (proper : f.Proper) (hop : f.Hop g) : g.Proper ∧ g.outline = f.outline :=
  (Relayed.request .here rfl hop rfl).kept proper

/-- What reads a request for a framework reads it as what the next peer reads. -/
theorem exists_hop {m n : Message} (asks : m.body = .complianceRequest f)
    (read : Message.decode m.encode = .ok n) : ∃ g, f.Hop g := by
  obtain ⟨id, route, body⟩ := m
  cases asks
  have kind := (Message.kept_of_decode read).2.2
  cases found : n.body with
  | complianceRequest g =>
    refine ⟨g, ?_⟩
    rw [Hop, Message.decode_encode_body .zero id [] route, read, ← found]
    rfl
  | _ =>
    rw [found] at kind
    cases kind

theorem Enduring.hop (enduring : f.Enduring) (hop : f.Hop g) : g.Enduring :=
  fun _ path => enduring _ (.head hop path)

/-- What is read as it was at one peer is so at every peer. -/
theorem Relayable.enduring (relayable : f.Relayable) : f.Enduring := by
  have alone : Message.decode (Message.encode ⟨.zero, [], .complianceRequest f⟩) =
      .ok ⟨.zero, [], .complianceRequest f⟩ := relayable
  intro g path
  have same : g = f := by
    induction path with
    | refl => rfl
    | @tail _ g _ hop ih =>
      have read : Message.decode (Message.encode ⟨.zero, [], .complianceRequest f⟩) =
          .ok ⟨.zero, [], .complianceRequest g⟩ := ih ▸ hop
      rw [alone] at read
      exact (Body.complianceRequest.inj (congrArg Message.body (Except.ok.inj read))).symm
  rw [same]
  exact ⟨f, alone⟩

end Framework

end TrustMesh
