import TrustMesh.Framework.Holdings
import TrustMesh.Proofs.Framework.Reference

/-!
# Namespaces of issuers and peers

What a framework decides does not depend on the namespaces of participants, of the issuers
and peers that its conditions refer to, or of what a peer holds: with all of them moved to
other namespaces it asks the same questions and decides in the same way
(`Framework.namespaces_are_irrelevant`).

References are looked up with their namespaces. A reference to an identifier is found in
its old form and not in the new one, or the other way round, and means the same peer either
way, because nothing is called by an identifier. The names of participants stay as they are
and lead to identifiers that have moved.
-/

namespace TrustMesh

/-- Two forms of an identifier that differ at most in what comes before the last segment. -/
def Moved (id id' : String) : Prop := ∃ short, Segment id short ∧ Segment id' short

theorem moved_iff {id id' : String} : Moved id id' ↔ withoutNamespace id' = withoutNamespace id := by
  simp only [Moved, ← withoutNamespace_eq_iff]
  exact ⟨fun ⟨_, old, new⟩ => new.trans old.symm, fun same => ⟨_, rfl, same⟩⟩

/-- The participant with another namespace. -/
structure Participant.Moved (p p' : Participant) : Prop where
  id : TrustMesh.Moved p.id p'.id
  name : p'.name = p.name
  did : p'.did = p.did
  extra : p'.extra = p.extra

/-- No participant has the reference as its name. -/
def Framework.Unnamed (f : Framework) (reference : String) : Prop :=
  ∀ p ∈ f.participants, p.name ≠ some reference

/-- The condition with another namespace of the issuer or the peer that it refers to. A reference by
name stays. -/
inductive Condition.Moved (f : Framework) : Condition → Condition → Prop where
  | refl (c : Condition) : Moved f c c
  | schema (reference : String) {issuer issuer' : String} :
    TrustMesh.Moved issuer issuer' → f.Unnamed issuer → f.Unnamed issuer' →
    Moved f (.schema reference (some issuer)) (.schema reference (some issuer'))
  | identity {peer peer' : String} :
    TrustMesh.Moved peer peer' → f.Unnamed peer → f.Unnamed peer' →
    Moved f (.identity peer) (.identity peer')

/-- The requirement with other namespaces in some of its conditions. -/
inductive Requirement.Moved (f : Framework) : Requirement → Requirement → Prop where
  | all {conditions conditions' : List Condition} :
    List.Forall₂ (Condition.Moved f) conditions conditions' →
    Moved f (.all conditions) (.all conditions')
  | any {conditions conditions' : List Condition} :
    List.Forall₂ (Condition.Moved f) conditions conditions' →
    Moved f (.any conditions) (.any conditions')

/-- The rule with other namespaces in some of its conditions. -/
structure Rule.Moved (f : Framework) (rule rule' : Rule) : Prop where
  grant : rule'.grant = rule.grant
  requirement : rule.requirement.Moved f rule'.requirement

/-- The framework with other namespaces of some participants and in some conditions. No participant is
called by an identifier, old or new. -/
structure Framework.Moved (f f' : Framework) : Prop where
  schemas : f'.schemas = f.schemas
  credDefs : f'.credDefs = f.credDefs
  participants : List.Forall₂ Participant.Moved f.participants f'.participants
  roles : f'.roles = f.roles
  permissions : List.Forall₂ (Rule.Moved f) f.permissions f'.permissions
  extra : f'.extra = f.extra
  unnamed : ∀ p ∈ f.participants ++ f'.participants, f.Unnamed p.id

/-- The credential with another namespace of its issuer. -/
structure SchemaCredential.Moved (c c' : SchemaCredential) : Prop where
  schema : c'.schema = c.schema
  issuer : TrustMesh.Moved c.issuer c'.issuer

/-- The holdings with other namespaces of some identities and issuers. -/
structure Holdings.Moved (h h' : Holdings) : Prop where
  identities : List.Forall₂ TrustMesh.Moved h.identities h'.identities
  schemaCredentials : List.Forall₂ SchemaCredential.Moved h.schemaCredentials h'.schemaCredentials
  credDefs : h'.credDefs = h.credDefs

/-! ## References -/

namespace Framework

variable {f f' : Framework} {reference : String}

/-- A reference that is no name stands for itself, listed as an identifier or not. -/
theorem participant_of_unnamed (unnamed : f.Unnamed reference) :
    f.names.participant reference = reference :=
  participant_eq_iff.2 (standsFor_self fun p there carries =>
    carries.resolve_right (unnamed p there))

theorem Moved.unnamed_of (moved : f.Moved f') (unnamed : f.Unnamed reference) :
    f'.Unnamed reference := by
  have names : List.Forall₂ (fun p p' : Participant => p'.name = p.name)
      f.participants f'.participants := moved.participants.imp fun _ _ same => same.name
  unfold Unnamed at unnamed ⊢
  generalize f.participants = participants, f'.participants = participants' at names unnamed ⊢
  induction names with
  | nil => exact unnamed
  | cons first _ ih =>
    obtain ⟨head, rest⟩ := List.forall_mem_cons.1 unnamed
    exact List.forall_mem_cons.2 ⟨first ▸ head, ih rest⟩

/-- What the participants list under a reference moves with them, if it is no identifier of theirs. -/
theorem get?_references_moved {participants participants' : List Participant}
    (moved : List.Forall₂ Participant.Moved participants participants')
    (foreign : ∀ p ∈ participants, p.id ≠ reference)
    (foreign' : ∀ p ∈ participants', p.id ≠ reference) :
    ((OrderedMap.ofList (participants'.flatMap Participant.references)).get? reference).map
        withoutNamespace =
      ((OrderedMap.ofList (participants.flatMap Participant.references)).get? reference).map
        withoutNamespace := by
  induction moved with
  | nil => rfl
  | @cons p p' _ _ first _ ih =>
    obtain ⟨other, foreign⟩ := List.forall_mem_cons.1 foreign
    obtain ⟨other', foreign'⟩ := List.forall_mem_cons.1 foreign'
    have carries : p'.Carries reference ↔ p.Carries reference := by
      simp [Participant.Carries, other, other', first.name]
    have own : ((OrderedMap.ofList p'.references).get? reference).map withoutNamespace =
        ((OrderedMap.ofList p.references).get? reference).map withoutNamespace := by
      rw [Participant.get?_references, Participant.get?_references]
      by_cases listed : p.Carries reference
      · rw [if_pos listed, if_pos (carries.2 listed), Option.map_some, Option.map_some,
          moved_iff.1 first.id]
      · rw [if_neg listed, if_neg (mt carries.1 listed)]
    rw [List.flatMap_cons, List.flatMap_cons, OrderedMap.get?_ofList_append,
      OrderedMap.get?_ofList_append, Option.map_or, Option.map_or, ih foreign foreign', own]

/-- A reference that stays means the same peer. -/
theorem Moved.participant (moved : f.Moved f') (reference : String) :
    withoutNamespace (f'.names.participant reference) =
      withoutNamespace (f.names.participant reference) := by
  by_cases unnamed : f.Unnamed reference
  · rw [participant_of_unnamed unnamed, participant_of_unnamed (moved.unnamed_of unnamed)]
  · have foreign : ∀ p ∈ f.participants ++ f'.participants, p.id ≠ reference := by
      rintro p there rfl
      exact unnamed (moved.unnamed p there)
    rw [List.forall_mem_append] at foreign
    have listed : (f'.names.participants.get? reference).map withoutNamespace =
        (f.names.participants.get? reference).map withoutNamespace :=
      get?_references_moved moved.participants foreign.1 foreign.2
    calc withoutNamespace (f'.names.participant reference)
      _ = ((f'.names.participants.get? reference).map withoutNamespace).getD
            (withoutNamespace reference) := (Option.getD_map ..).symm
      _ = ((f.names.participants.get? reference).map withoutNamespace).getD
            (withoutNamespace reference) := by rw [listed]
      _ = withoutNamespace (f.names.participant reference) := Option.getD_map ..

end Framework

section Questions

variable {f f' : Framework} {c c' : Condition} {r r' : Requirement}

/-- A reference that moves means the same peer. -/
theorem Framework.Moved.participant_moved (moved : f.Moved f') {reference reference' : String}
    (same : TrustMesh.Moved reference reference') (unnamed : f.Unnamed reference)
    (unnamed' : f.Unnamed reference') :
    withoutNamespace (f'.names.participant reference') =
      withoutNamespace (f.names.participant reference) := by
  rw [moved.participant, participant_of_unnamed unnamed, participant_of_unnamed unnamed',
    moved_iff.1 same]

theorem Condition.Moved.question? (moves : f.Moved f') (moved : c.Moved f c') :
    c'.question? f'.names = c.question? f.names := by
  have schema : ∀ reference, f'.names.schema reference = f.names.schema reference := by
    simp [Framework.names, Framework.Names.schema, moves.schemas]
  have credDef : ∀ reference, f'.names.credDef reference = f.names.credDef reference := by
    simp [Framework.names, Framework.Names.credDef, moves.credDefs]
  cases moved with
  | refl =>
    cases c with
    | schema reference issuer =>
      cases issuer with
      | none => rfl
      | some issuer => rw [Condition.question?, schema, moves.participant, Condition.question?]
    | identity peer => rw [Condition.question?, moves.participant, Condition.question?]
    | credDef reference => rw [Condition.question?, credDef, Condition.question?]
    | unrecognized members => rfl
  | schema reference same unnamed unnamed' =>
    rw [Condition.question?, schema, moves.participant_moved same unnamed unnamed',
      Condition.question?]
  | identity same unnamed unnamed' =>
    rw [Condition.question?, moves.participant_moved same unnamed unnamed', Condition.question?]

/-! ## Evaluation -/

/-- Conditions that ask the same questions are evaluated alike. -/
theorem Verdict.ofConditions_congr {names names' : Framework.Names} (oracle : Oracle)
    (decisive : Bool) {conditions conditions' : List Condition}
    (same : List.Forall₂ (fun c c' => c'.question? names' = c.question? names)
      conditions conditions') :
    ofConditions names' oracle decisive conditions' =
      ofConditions names oracle decisive conditions := by
  induction same with
  | nil => rfl
  | @cons c c' _ _ asks _ ih =>
    have holds : c'.holds names' oracle = c.holds names oracle := by
      rw [Condition.holds, asks, Condition.holds]
    simp only [ofConditions, asks, holds, ih]

theorem Requirement.Moved.verdict (moves : f.Moved f') (moved : r.Moved f r') (oracle : Oracle) :
    r'.verdict f'.names oracle = r.verdict f.names oracle := by
  cases moved with
  | all conditions =>
    exact Verdict.ofConditions_congr oracle false (conditions.imp fun _ _ => (·.question? moves))
  | any conditions =>
    exact Verdict.ofConditions_congr oracle true (conditions.imp fun _ _ => (·.question? moves))

theorem Framework.Moved.evaluateFrom (moves : f.Moved f') (oracle : Oracle) (index : Nat)
    {rules rules' : List Rule} (moved : List.Forall₂ (Rule.Moved f) rules rules') :
    Framework.evaluateFrom f'.names oracle index rules' =
      Framework.evaluateFrom f.names oracle index rules := by
  induction moved generalizing index with
  | nil => rfl
  | cons first _ ih =>
    simp only [Framework.evaluateFrom, first.grant, first.requirement.verdict moves, ih]

end Questions

/-! ## Holdings -/

/-- Lists whose members pass a test alike, one by one, have some member that passes it, or none. -/
theorem any_eq_of_forall₂ {α β : Type} {p : α → Bool} {q : β → Bool} {items : List α}
    {others : List β} (same : List.Forall₂ (fun a b => q b = p a) items others) :
    others.any q = items.any p := by
  induction same with
  | nil => rfl
  | cons first _ ih => rw [List.any_cons, List.any_cons, first, ih]

theorem Holdings.Moved.oracle {h h' : Holdings} (moved : h.Moved h') : h'.oracle = h.oracle := by
  funext question
  refine congrArg Except.ok ?_
  cases question with
  | schema schema issuer =>
    refine any_eq_of_forall₂ (moved.schemaCredentials.imp fun c c' same => ?_)
    rw [same.schema, moved_iff.1 same.issuer]
  | identity peer =>
    refine any_eq_of_forall₂ (moved.identities.imp fun own own' same => ?_)
    rw [moved_iff.1 same]
  | credDef credDef => rw [affirms, moved.credDefs, affirms]

namespace Framework

/-- A framework whose participants and references move to other namespaces asks every oracle the same
questions in the same order, and decides every rule alike. With holdings that move, too, it still does,
and grants the same roles. -/
theorem namespaces_are_irrelevant (f f' : Framework) (moved : f.Moved f') :
    (∀ oracle, f'.evaluate oracle = f.evaluate oracle) ∧
      ∀ h h' : Holdings, h.Moved h' →
        f'.evaluate h'.oracle = f.evaluate h.oracle ∧
        f'.grantedRoles h'.oracle = f.grantedRoles h.oracle := by
  have evaluate : ∀ oracle, f'.evaluate oracle = f.evaluate oracle := fun oracle =>
    moved.evaluateFrom oracle 0 moved.permissions
  refine ⟨evaluate, fun h h' held => ?_⟩
  have same : f'.evaluate h'.oracle = f.evaluate h.oracle := by rw [held.oracle, evaluate]
  exact ⟨same, by rw [grantedRoles, same, grantedRoles]⟩

/-- A participant that is referred to by name loses its namespace, an issuer that is listed is referred to
by an identifier that is not, and the holder keeps both roles with a credential and an identity that
have moved elsewhere. -/
theorem namespaces_are_irrelevant_ministry :
    let f : Framework := ⟨[.named "S1" "licence"], [],
      [.named "did:sov:A" "ministry", .named "did:sov:B" "office"], [],
      [⟨.ofList ["trader"], .all [.schema "licence" (some "did:sov:B"), .identity "ministry"]⟩,
        ⟨.ofList ["auditor"], .any [.identity "A"]⟩], .empty⟩
    let f' : Framework := ⟨[.named "S1" "licence"], [],
      [.named "A" "ministry", .named "did:sov:B" "office"], [],
      [⟨.ofList ["trader"], .all [.schema "licence" (some "did:web:B"), .identity "ministry"]⟩,
        ⟨.ofList ["auditor"], .any [.identity "did:sov:A"]⟩], .empty⟩
    let h : Holdings := ⟨["did:sov:A"], [⟨"S1", "B"⟩], []⟩
    let h' : Holdings := ⟨["x:y:A"], [⟨"S1", "did:sov:B"⟩], []⟩
    f.Moved f' ∧ h.Moved h' ∧ (f.grantedRoles h.oracle).toList = ["auditor", "trader"] ∧
      f'.grantedRoles h'.oracle = f.grantedRoles h.oracle := by
  intro f f' h h'
  have moved : f.Moved f' := {
    schemas := rfl
    credDefs := rfl
    participants := .cons ⟨moved_iff.2 (by decide), rfl, rfl, rfl⟩
      (.cons ⟨moved_iff.2 rfl, rfl, rfl, rfl⟩ .nil)
    roles := rfl
    permissions := .cons ⟨rfl, .all (.cons (.schema _ (moved_iff.2 (by decide))
        (by simp [Unnamed, f, Participant.named]) (by simp [Unnamed, f, Participant.named]))
        (.cons (.refl _) .nil))⟩
      (.cons ⟨rfl, .any (.cons (.identity (moved_iff.2 (by decide))
        (by simp [Unnamed, f, Participant.named]) (by simp [Unnamed, f, Participant.named]))
        .nil)⟩ .nil)
    extra := rfl
    unnamed := by simp [Unnamed, f, f', Participant.named] }
  have held : h.Moved h' :=
    ⟨.cons (moved_iff.2 (by decide)) .nil, .cons ⟨rfl, moved_iff.2 (by decide)⟩ .nil, rfl⟩
  exact ⟨moved, held, by decide +kernel,
    ((namespaces_are_irrelevant f f' moved).2 h h' held).2⟩

end Framework

end TrustMesh
