import TrustMesh.Proofs.Framework.Meaning

/-!
# Rules that name identifiers

A rule may refer to an entry by its identifier, and names and identifiers are looked up in
one table. A schema or a credential definition has no place in its table but by name, so its
identifier means the entry itself unless an entry goes by that identifier as its name: then
the last entry that does is meant. A participant is in the table by its identifier as well,
and the names of participants before it take nothing from it.

`Framework.identifiers_mean_themselves` says so of references, and of the questions of the
conditions that are written with identifiers.
-/

namespace TrustMesh

section StandsFor

variable {α : Type} {Carries : α → String → Prop} {id : α → String} {entries : List α}
  {reference : String}

/-- A reference that nothing but its own entries carries stands for itself. -/
theorem standsFor_self (own : ∀ e ∈ entries, Carries e reference → id e = reference) :
    StandsFor Carries id entries reference reference := by
  rcases exists_last_or_forall_not (Carries · reference) entries with
    ⟨before, e, after, split, carries, last⟩ | free
  · have there : e ∈ entries := split ▸ List.mem_append_right before List.mem_cons_self
    exact .inl ⟨before, e, after, split, carries, last, (own e there carries).symm⟩
  · exact .inr ⟨free, rfl⟩

/-- A reference stands for itself if and only if the last entry that carries it, should any do, is
its own. -/
theorem standsFor_self_iff {references : α → List (String × String)}
    (table : ∀ e reference, (OrderedMap.ofList (references e)).get? reference =
      open Classical in if Carries e reference then some (id e) else none) :
    StandsFor Carries id entries reference reference ↔
      ∀ before e after, entries = before ++ e :: after → Carries e reference →
        (∀ later ∈ after, ¬ Carries later reference) → id e = reference := by
  constructor
  · intro stands before e after split carries last
    have other : StandsFor Carries id entries reference (id e) :=
      .inl ⟨before, e, after, split, carries, last, rfl⟩
    exact ((standsFor_iff table).1 other).symm.trans ((standsFor_iff table).1 stands)
  · intro own
    rcases exists_last_or_forall_not (Carries · reference) entries with
      ⟨before, e, after, split, carries, last⟩ | free
    · exact .inl ⟨before, e, after, split, carries, last,
        (own before e after split carries last).symm⟩
    · exact .inr ⟨free, rfl⟩

end StandsFor

/-- No entry goes by the identifier as its name, or the last that does has that identifier. -/
def LedgerEntry.Unclaimed (entries : List LedgerEntry) (id : String) : Prop :=
  ∀ before e after, entries = before ++ e :: after → e.name = some id →
    (∀ later ∈ after, later.name ≠ some id) → e.id = id

/-- Behind a participant with the identifier no other one goes by it as its name. -/
def Participant.Unclaimed (participants : List Participant) (id : String) : Prop :=
  ∃ before p after, participants = before ++ p :: after ∧ p.id = id ∧
    ∀ later ∈ after, later.name = some id → later.id = id

/-- A condition is written with unclaimed identifiers of entries, and the question is the one that
asks about these entries. -/
inductive Condition.Canonical (f : Framework) : Condition → Question → Prop where
  | schema {e : LedgerEntry} {issuer : Participant} (known : e ∈ f.schemas)
      (trusted : issuer ∈ f.participants) :
    LedgerEntry.Unclaimed f.schemas e.id → Participant.Unclaimed f.participants issuer.id →
    Canonical f (.schema e.id (some issuer.id)) (.schema e.id (withoutNamespace issuer.id))
  | identity {p : Participant} (known : p ∈ f.participants) :
    Participant.Unclaimed f.participants p.id →
    Canonical f (.identity p.id) (.identity (withoutNamespace p.id))
  | credDef {e : LedgerEntry} (known : e ∈ f.credDefs) :
    LedgerEntry.Unclaimed f.credDefs e.id → Canonical f (.credDef e.id) (.credDef e.id)

namespace Framework

variable {f : Framework} {id : String}

theorem schema_eq_self_iff :
    f.names.schema id = id ↔ LedgerEntry.Unclaimed f.schemas id :=
  schema_eq_iff.trans (standsFor_self_iff LedgerEntry.get?_reference)

theorem credDef_eq_self_iff :
    f.names.credDef id = id ↔ LedgerEntry.Unclaimed f.credDefs id :=
  credDef_eq_iff.trans (standsFor_self_iff LedgerEntry.get?_reference)

theorem participant_eq_self (unclaimed : Participant.Unclaimed f.participants id) :
    f.names.participant id = id := by
  obtain ⟨before, p, after, split, own, later⟩ := unclaimed
  refine participant_eq_iff.2 ?_
  rcases exists_last_or_forall_not (Participant.Carries · id) after with
    ⟨between, q, rest, rfl, carries, last⟩ | free
  · -- Whatever carries the identifier behind the participant has it as its identifier, too.
    have same : q.id = id :=
      carries.elim (fun same => same) (later q (by simp))
    exact .inl ⟨before ++ p :: between, q, rest, by simp [split], carries, last, same.symm⟩
  · exact .inl ⟨before, p, after, split, .inl own, free, own.symm⟩

/-- The identifier of a schema or of a credential definition means itself if and only if it is unclaimed,
and that of a participant does if it is unclaimed, whatever the names of the participants before it.
A condition that is written with such identifiers asks about the entries that have them. -/
theorem identifiers_mean_themselves (f : Framework) :
    (∀ e ∈ f.schemas, f.names.schema e.id = e.id ↔ LedgerEntry.Unclaimed f.schemas e.id) ∧
    (∀ e ∈ f.credDefs, f.names.credDef e.id = e.id ↔ LedgerEntry.Unclaimed f.credDefs e.id) ∧
    (∀ p ∈ f.participants, Participant.Unclaimed f.participants p.id →
      f.names.participant p.id = p.id) ∧
    ∀ (c : Condition) question, c.Canonical f question → c.question? f.names = some question := by
  refine ⟨fun _ _ => schema_eq_self_iff, fun _ _ => credDef_eq_self_iff,
    fun _ _ => participant_eq_self, fun c question canonical => ?_⟩
  cases canonical with
  | schema _ _ schema issuer =>
    rw [Condition.question?, schema_eq_self_iff.2 schema, participant_eq_self issuer]
  | identity _ peer => rw [Condition.question?, participant_eq_self peer]
  | credDef _ credDef => rw [Condition.question?, credDef_eq_self_iff.2 credDef]

/-- A schema that has its identifier as its name, behind another one that goes by it, and a participant
behind one that goes by its identifier. -/
theorem identifiers_mean_themselves_coinciding :
    let f : Framework := ⟨[.named "S2" "S1", .named "S1" "S1"], [.named "C1" "exporter"],
      [.named "did:sov:B" "did:sov:A", .named "did:sov:A" "ministry"], [], [], .empty⟩
    f.names.schema "S1" = "S1" ∧ f.names.credDef "C1" = "C1" ∧
      f.names.participant "did:sov:A" = "did:sov:A" ∧
      (Condition.schema "S1" (some "did:sov:A")).question? f.names = some (.schema "S1" "A") := by
  intro f
  have schema : LedgerEntry.Unclaimed f.schemas "S1" := schema_eq_self_iff.1 (by decide)
  have credDef : LedgerEntry.Unclaimed f.credDefs "C1" := credDef_eq_self_iff.1 (by decide)
  have participant : Participant.Unclaimed f.participants "did:sov:A" :=
    ⟨[.named "did:sov:B" "did:sov:A"], .named "did:sov:A" "ministry", [], rfl, rfl, by simp⟩
  obtain ⟨schemas, credDefs, participants, conditions⟩ := identifiers_mean_themselves f
  have known : LedgerEntry.named "S1" "S1" ∈ f.schemas := by simp [f]
  have trusted : Participant.named "did:sov:A" "ministry" ∈ f.participants := by simp [f]
  refine ⟨(schemas _ known).2 schema, ?_, participants _ trusted participant, ?_⟩
  · exact (credDefs (.named "C1" "exporter") (by simp [f])).2 credDef
  · exact conditions _ _ (.schema known trusted schema participant)

/-- A name takes the identifier of a schema or of a credential definition, whichever comes first, and a
condition that is written with these identifiers asks about the other entries. -/
theorem names_take_identifiers :
    let f : Framework := ⟨[.named "S1" "licence", .named "S2" "S1"],
      [.named "C2" "C1", .named "C1" "exporter"], [], [], [], .empty⟩
    (¬ ∀ e ∈ f.schemas, f.names.schema e.id = e.id) ∧
      (¬ ∀ e ∈ f.credDefs, f.names.credDef e.id = e.id) ∧
      (Condition.schema "S1" (some "A")).question? f.names = some (.schema "S2" "A") ∧
      (Condition.credDef "C1").question? f.names = some (.credDef "C2") := by
  decide +kernel

end Framework

end TrustMesh
