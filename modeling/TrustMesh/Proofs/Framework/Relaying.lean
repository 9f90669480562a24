import TrustMesh.Proofs.Json.Canonical
import TrustMesh.Proofs.Message.Relaying

/-!
# Frameworks that go from hand to hand

A framework is passed on as a value, whose members stand in key order, as a text, or in the
frame of a request. Reading does not look at the order of members
(`Framework.orderless_decode`), so a framework that was read, or that might have been
(`Condition.Legible`), is read from its value as it was. However often it is passed on, it
is evaluated alike (`Framework.relayed_unchanged`).
-/

namespace TrustMesh

open Std

namespace Condition

/-- A condition is what the members of an object state, the last of those with one key being kept. -/
theorem decode_object (members : List (String × Json)) :
    decode (.object (Term.membersOfJson members)) =
      .ok (ofMembers (.ofList (Json.canonicalMembers members))) := by
  have readable : (Term.object (Term.membersOfJson members)).readable = true :=
    Json.membersReadable_ofJson members
  rw [decode, if_pos readable, Json.memberValues_ofJson]

theorem orderless_decode : Decode.Orderless decode := by
  intro v c decoded
  cases v with
  | object members =>
    have canonical : (Json.object members).canonical.Canonical := Json.canonical_canonical _
    have kept := Json.canonicalMembers_entries (Json.membersCanonical_iff.1 canonical.2)
    rw [Term.ofJson, decode_object] at decoded
    rw [Json.canonical, Json.ofMembers, Term.ofJson, decode_object, kept, OrderedMap.ofList_entries]
    exact decoded
  | _ => cases decoded

/-- A condition as it may have been read: the texts that are recognised are not empty, and members
that are not recognised state no condition. -/
def Legible : Condition → Prop
  | .schema reference issuer => reference ≠ "" ∧ issuer ≠ some ""
  | .identity participant => participant ≠ ""
  | .credDef definition => definition ≠ ""
  | .unrecognized members => ofMembers members = .unrecognized members ∧
    ∀ m ∈ members.entries, m.2.Canonical

theorem Legible.settled {c : Condition} (legible : c.Legible) : c.Settled := by
  have texts : ∀ members : List (String × Json), (∀ m ∈ members, ∃ text, m.2 = .text text) →
      ∀ m ∈ (OrderedMap.ofList members).entries, m.2.Canonical := by
    intro members plain m there
    obtain ⟨text, same⟩ := plain m (OrderedMap.mem_entries_ofList there)
    rw [same]
    trivial
  cases c with
  | schema reference issuer =>
    refine ⟨stated_schema legible.1 legible.2, texts _ ?_⟩
    cases issuer <;> simp [optionalMember]
  | identity participant => exact ⟨stated_identity legible, texts _ (by simp)⟩
  | credDef definition => exact ⟨stated_credDef legible, texts _ (by simp)⟩
  | unrecognized members => exact ⟨legible.1, legible.2⟩

end Condition

/-! ## Reading in any order -/

section Records

variable (source : Source)

theorem LedgerEntry.orderless_record : record.Orderless source where
  value f mem := by
    simp only [record, List.mem_cons, List.not_mem_nil, or_false] at mem
    rcases mem with rfl | rfl
    · exact Field.value_of_set (fun _ _ => rfl) Decode.orderless_text
    · exact Field.value_of_set (fun _ _ => rfl) Decode.orderless_text.optional
  apart f mem g mem' differ := by
    simp only [record, List.mem_cons, List.not_mem_nil, or_false] at mem mem'
    rcases mem with rfl | rfl <;> rcases mem' with rfl | rfl
    all_goals first
      | exact absurd rfl differ
      | exact Field.apart_of_set (fun _ _ => rfl) (fun _ _ => rfl) fun _ _ _ => rfl
  aside f mem key s := by
    simp only [record, List.mem_cons, List.not_mem_nil, or_false] at mem
    rcases mem with rfl | rfl <;>
    · refine Field.aside_of_set (fun _ _ => rfl) ?_
      exact fun _ _ => rfl
  keeps := Record.keepsByKey_of_extra (fun extra e => { e with extra }) (·.extra)
    (fun _ _ _ => rfl) (fun _ _ => rfl) fun _ _ _ => rfl

theorem Participant.orderless_record : record.Orderless source where
  value f mem := by
    simp only [record, List.mem_cons, List.not_mem_nil, or_false] at mem
    rcases mem with rfl | rfl | rfl
    · exact Field.value_of_set (fun _ _ => rfl) Decode.orderless_text
    · exact Field.value_of_set (fun _ _ => rfl) Decode.orderless_text.optional
    · exact Field.value_of_set (fun _ _ => rfl) Decode.orderless_text.optional
  apart f mem g mem' differ := by
    simp only [record, List.mem_cons, List.not_mem_nil, or_false] at mem mem'
    rcases mem with rfl | rfl | rfl <;> rcases mem' with rfl | rfl | rfl
    all_goals first
      | exact absurd rfl differ
      | exact Field.apart_of_set (fun _ _ => rfl) (fun _ _ => rfl) fun _ _ _ => rfl
  aside f mem key s := by
    simp only [record, List.mem_cons, List.not_mem_nil, or_false] at mem
    rcases mem with rfl | rfl | rfl <;>
    · refine Field.aside_of_set (fun _ _ => rfl) ?_
      exact fun _ _ => rfl
  keeps := Record.keepsByKey_of_extra (fun extra p => { p with extra }) (·.extra)
    (fun _ _ _ => rfl) (fun _ _ => rfl) fun _ _ _ => rfl

theorem Requirement.orderless_decode : Decode.Orderless (decode source) := by
  refine Decode.Orderless.variant fun kind v r decoded => ?_
  obtain ⟨conditions, found, rfl⟩ := Except.eq_ok_of_map decoded
  rw [decodeKind, Condition.orderless_decode.list v conditions found]
  rfl

/-- A rule skips what it does not know. -/
theorem Rule.orderless_record : record.Orderless source := by
  refine Record.orderless_of_skips rfl (fun f mem => ?_) fun f mem g mem' differ => ?_
  · simp only [record, List.mem_cons, List.not_mem_nil, or_false] at mem
    rcases mem with rfl | rfl
    · exact Field.value_of_set (fun _ _ => rfl) Decode.orderless_text.list
    · exact Field.value_of_set (fun _ _ => rfl) (Requirement.orderless_decode source)
  · simp only [record, List.mem_cons, List.not_mem_nil, or_false] at mem mem'
    rcases mem with rfl | rfl <;> rcases mem' with rfl | rfl
    all_goals first
      | exact absurd rfl differ
      | exact Field.apart_of_set (fun _ _ => rfl) (fun _ _ => rfl) fun _ _ _ => rfl

theorem Framework.orderless_record : record.Orderless source where
  value f mem := by
    have entries := (LedgerEntry.orderless_record source).decode_canonical.list
    simp only [record, List.mem_cons, List.not_mem_nil, or_false] at mem
    rcases mem with rfl | rfl | rfl | rfl | rfl
    · exact Field.value_of_set (fun _ _ => rfl) entries
    · exact Field.value_of_set (fun _ _ => rfl) entries
    · exact Field.value_of_set (fun _ _ => rfl)
        (Participant.orderless_record source).decode_canonical.list
    · exact Field.value_of_set (fun _ _ => rfl) Decode.orderless_text.list
    · exact Field.value_of_set (fun _ _ => rfl) (Rule.orderless_record source).decode_canonical.list
  apart f mem g mem' differ := by
    simp only [record, List.mem_cons, List.not_mem_nil, or_false] at mem mem'
    rcases mem with rfl | rfl | rfl | rfl | rfl <;> rcases mem' with rfl | rfl | rfl | rfl | rfl
    all_goals first
      | exact absurd rfl differ
      | exact Field.apart_of_set (fun _ _ => rfl) (fun _ _ => rfl) fun _ _ _ => rfl
  aside f mem key s := by
    simp only [record, List.mem_cons, List.not_mem_nil, or_false] at mem
    rcases mem with rfl | rfl | rfl | rfl | rfl <;>
    · refine Field.aside_of_set (fun _ _ => rfl) ?_
      exact fun _ _ => rfl
  keeps := Record.keepsByKey_of_extra (fun extra f => { f with extra }) (·.extra)
    (fun _ _ _ => rfl) (fun _ _ => rfl) fun _ _ _ => rfl

/-- A framework is read from the canonical form of what it is read from. -/
theorem Framework.orderless_decode : Decode.Orderless (decode source) :=
  (orderless_record source).decode_canonical

end Records

/-! ## From hand to hand -/

namespace Framework

variable {f g h : Framework}

/-- A proper framework is read from its value as it was. -/
theorem ofJson_canonical (proper : f.Proper) : ofJson f.toJson.canonical = .ok f :=
  orderless_decode .value f.toJson f (decode_ofJson proper)

/-- A proper framework is read from its text as it was if its numbers are read back and it is not
nested too deeply. -/
theorem parse_chars (proper : f.Proper) (kept : f.toJson.Exact)
    (shallow : f.toJson.depth ≤ maximalDepth) : parse f.toJson.chars = .ok f := by
  have same := Json.reread_eq_ofJson f.toJson 0 kept (by omega)
  rw [parse, Decode.wholeText, Json.read_chars, same]
  simp only [decode_ofJson proper, if_true]

/-- What is read from the value of a framework that was read. -/
def passOn (read : Decoded Framework) : Decoded Framework :=
  read.bind fun f => ofJson f.toJson.canonical

/-- What may become of a framework that is passed on: it is read from its value, or taken from the
frame of a request. -/
inductive Relayed (f : Framework) : Framework → Prop where
  | here : f.Relayed f
  | value {g h : Framework} : f.Relayed g → ofJson g.toJson.canonical = .ok h → f.Relayed h
  | request {g h : Framework} {m n : Message} : f.Relayed g → m.body = .complianceRequest g →
    Message.decode m.encode = .ok n → n.body = .complianceRequest h → f.Relayed h

/-- A framework that is passed on stays proper, and its rules look at the same. -/
theorem Relayed.kept (proper : f.Proper) (relayed : f.Relayed g) :
    g.Proper ∧ g.outline = f.outline := by
  induction relayed with
  | here => exact ⟨proper, rfl⟩
  | value _ read before =>
    cases (ofJson_canonical before.1).symm.trans read
    exact before
  | request _ asked read asks before =>
    obtain ⟨other, found, same⟩ := Message.framework_of_decode asked before.1 read
    have own := (Message.proper_of_decode read).1
    rw [found] at asks own
    cases asks
    exact ⟨own, same.trans before.2⟩

/-- A framework that is not nested too deeply stays what it is if its numbers are read back. -/
theorem Relayed.eq (proper : f.Proper) (kept : f.toJson.Exact)
    (shallow : 1 + f.toJson.depth ≤ maximalDepth) (relayed : f.Relayed g) : g = f := by
  induction relayed with
  | here => rfl
  | value _ read before =>
    subst before
    exact (Except.ok.inj ((ofJson_canonical proper).symm.trans read)).symm
  | request _ asked read asks before =>
    rename_i m n _
    subst before
    obtain ⟨id, route, body⟩ := m
    cases asked
    cases (Body.lucid_complianceRequest (proper.relayable kept shallow) id route).symm.trans read
    cases asks
    rfl

/-- A framework that was read is read from its own value as it was, so it has the same text and is
evaluated alike, question by question, and so after any number of hops. Taken from the frames of
requests it is still evaluated alike. A framework is also read from its value as it was if it never
was read, as long as its conditions are legible and what it does not interpret stands under names of
no fields. The same holds of texts and of frames if the numbers of the framework are read back and it
is not nested too deeply. -/
theorem relayed_unchanged (f : Framework) :
    (∀ v, ofJson v = .ok f →
      (∃ g, ofJson f.toJson.canonical = .ok g ∧ g = f ∧ g.toJson.compact = f.toJson.compact ∧
        ∀ oracle, g.evaluate oracle = f.evaluate oracle) ∧
      (f.toJson.Exact → f.toJson.depth ≤ maximalDepth → parse f.toJson.chars = .ok f) ∧
      (∀ hops, passOn^[hops] (.ok f) = .ok f) ∧
      ∀ g, f.Relayed g → (∀ oracle, g.evaluate oracle = f.evaluate oracle) ∧
        (f.toJson.Exact → 1 + f.toJson.depth ≤ maximalDepth → g = f)) ∧
    ((∀ r ∈ f.permissions, ∀ c ∈ r.requirement.conditions, c.Legible) →
      (∀ e ∈ f.schemas, Uninterpreted LedgerEntry.fields e.extra) →
      (∀ e ∈ f.credDefs, Uninterpreted LedgerEntry.fields e.extra) →
      (∀ p ∈ f.participants, Uninterpreted Participant.fields p.extra) →
      Uninterpreted fields f.extra → ofJson f.toJson.canonical = .ok f ∧
        (f.toJson.Exact → f.toJson.depth ≤ maximalDepth → parse f.toJson.chars = .ok f)) := by
  constructor
  · intro v read
    have proper : f.Proper := (of_decode read).1
    have again := ofJson_canonical proper
    refine ⟨⟨f, again, rfl, rfl, fun _ => rfl⟩, parse_chars proper, fun hops => ?_,
      fun g relayed => ?_⟩
    · exact Function.iterate_fixed again hops
    · refine ⟨fun oracle => ?_, fun kept shallow => relayed.eq proper kept shallow⟩
      rw [← evaluate_outline oracle g, (relayed.kept proper).2, evaluate_outline]
  · intro legible schemas credDefs participants extra
    have proper : f.Proper := ⟨schemas, credDefs, participants,
      fun r mem c there => (legible r mem c there).settled, extra⟩
    exact ⟨ofJson_canonical proper, parse_chars proper⟩

/-- A framework with a condition that says too much, one that says nothing, and members that are not
interpreted. -/
theorem relayed_unchanged_sample :
    let v : Json := .object [
      ("participants", .array [.object [("id", .text "did:sov:A"), ("name", .text "ministry"),
        ("site", .object [("open", .bool true)])]]),
      ("permissions", .array [.object [("grant", .array [.text "trader"]), ("note", .null),
        ("when", .object [("any", .array [.object [("id", .text "B"), ("since", .null)],
          .object [("cred_def", .text ""), ("id", .null)]])])]]),
      ("roles", .array [.text "trader"]), ("schemas", .array []), ("version", .text "1")]
    let f : Framework := ⟨[], [],
      [⟨"did:sov:A", some "ministry", none, .ofList [("site", .object [("open", .bool true)])]⟩],
      ["trader"], [⟨.ofList ["trader"], .any [.identity "B",
        .unrecognized (.ofList [("cred_def", .text ""), ("id", .null)])]⟩],
      .ofList [("version", .text "1")]⟩
    ofJson v = .ok f ∧ ofJson f.toJson.canonical = .ok f ∧ parse f.toJson.chars = .ok f ∧
      ∀ g, f.Relayed g → g = f := by
  intro v f
  have read : ofJson v = .ok f := by decide +kernel
  have kept : f.toJson.Exact := by repeat' constructor
  have legible : ∀ r ∈ f.permissions, ∀ c ∈ r.requirement.conditions, c.Legible := by
    simp only [f, List.mem_singleton, forall_eq, Requirement.conditions, List.forall_mem_cons]
    refine ⟨by simp [Condition.Legible], by decide +kernel, fun m there => ?_⟩
    have mem := OrderedMap.mem_entries_ofList there
    simp only [List.mem_cons, List.not_mem_nil, or_false] at mem
    rcases mem with rfl | rfl <;> trivial
  have described : ∀ p ∈ f.participants, Uninterpreted Participant.fields p.extra := by
    simp only [f, List.mem_singleton, forall_eq]
    intro m there
    cases List.mem_singleton.1 (OrderedMap.mem_entries_ofList there)
    exact ⟨by decide, List.pairwise_singleton .., trivial, trivial⟩
  have extra : Uninterpreted fields f.extra := by
    intro m there
    cases List.mem_singleton.1 (OrderedMap.mem_entries_ofList there)
    exact ⟨by decide, trivial⟩
  obtain ⟨value, text⟩ :=
    (relayed_unchanged f).2 legible (by simp [f]) (by simp [f]) described extra
  refine ⟨read, value, text kept (by decide), fun g relayed => ?_⟩
  exact (((relayed_unchanged f).1 v read).2.2.2 g relayed).2 kept (by decide)

end Framework

end TrustMesh
