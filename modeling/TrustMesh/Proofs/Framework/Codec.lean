import TrustMesh.Framework.Codec
import TrustMesh.Proofs.Collection.OrderedSet
import TrustMesh.Proofs.Json.Record

/-!
# Frameworks that were read

A framework that was read is proper (`Framework.of_decode`): members that it keeps without
interpreting them are canonical and have no name of a field, and every condition is what its
members state. A proper framework is read from its written form as it was
(`Framework.decode_ofJson`).
-/

namespace TrustMesh

/-- Uninterpreted members: canonical values under names other than those of the fields. -/
def Uninterpreted (fields : List String) (extra : OrderedMap String Json) : Prop :=
  ∀ m ∈ extra.entries, m.1 ∉ fields ∧ m.2.Canonical

/-- Uninterpreted members of values that nest less deep than a term. -/
structure Kept (fields : List String) (depth : Nat) (extra : OrderedMap String Json) : Prop where
  uninterpreted : Uninterpreted fields extra
  shallow : ∀ m ∈ extra.entries, m.2.depth < depth

theorem kept_empty (fields : List String) (depth : Nat) : Kept fields depth .empty :=
  ⟨fun _ there => (nomatch there), fun _ there => (nomatch there)⟩

theorem Kept.insert {fields : List String} {depth : Nat} {extra : OrderedMap String Json}
    (kept : Kept fields depth extra) {key : String} (foreign : key ∉ fields) {t : Term}
    (shallow : t.depth < depth) : Kept fields depth (extra.insert key t.toJson) := by
  constructor
  · intro m there
    rcases OrderedMap.mem_entries_insert there with rfl | old
    · exact ⟨foreign, t.canonical_toJson⟩
    · exact kept.uninterpreted m old
  · intro m there
    rcases OrderedMap.mem_entries_insert there with rfl | old
    · exact Nat.lt_of_le_of_lt t.depth_toJson_le shallow
    · exact kept.shallow m old

theorem Kept.membersDepth_le {fields : List String} {depth : Nat} {extra : OrderedMap String Json}
    (kept : Kept fields depth extra) : Json.membersDepth extra.entries ≤ depth - 1 :=
  Json.membersDepth_le_iff.2 fun m there => Nat.le_sub_one_of_lt (kept.shallow m there)

/-- Uninterpreted members are all collected. -/
theorem Record.readMembers_extra {α : Type} (r : Record α) (source : Source)
    {add : String → Term → α → α} (collects : r.collect = some add)
    (set : OrderedMap String Json → α)
    (adds : ∀ key t extra, add key t (set extra) = set (extra.insert key t.toJson))
    {extra : OrderedMap String Json} (kept : Uninterpreted (r.fields.map Field.name) extra)
    (seen : List String) :
    r.readMembers source seen (set .empty) (Term.membersOfJson extra.entries) =
      .ok (seen, set extra) := by
  have collected : ∀ (members : List (String × Json)) (some : OrderedMap String Json),
      (∀ m ∈ members, m.2.Canonical) →
      members.foldl (fun a m => add m.1 (.ofJson m.2) a) (set some) =
        set (members.foldl (fun all m => all.insert m.1 m.2) some) := by
    intro members
    induction members with
    | nil => exact fun _ _ => rfl
    | cons member rest ih =>
      intro some canonical
      obtain ⟨own, canonical⟩ := List.forall_mem_cons.1 canonical
      rw [List.foldl_cons, adds, Json.toJson_ofJson _ own, ih _ canonical, List.foldl_cons]
  have foreign : ∀ m ∈ extra.entries, r.fields.find? (·.name = m.1) = none := by
    intro m there
    refine List.find?_eq_none.2 fun f mem => ?_
    rw [decide_eq_true_eq]
    exact fun same => (kept m there).1 (List.mem_map.2 ⟨f, mem, same⟩)
  rw [readMembers_collect collects foreign, collected _ _ fun m there => (kept m there).2]
  exact congrArg (fun all => Except.ok (seen, set all)) extra.ofList_entries

/-! ## Conditions -/

namespace Condition

/-- A condition that its own members state. -/
structure Settled (c : Condition) : Prop where
  stated : ofMembers c.members = c
  canonical : ∀ m ∈ c.members.entries, m.2.Canonical

theorem eq_of_nonEmptyText? {key text : String} {members : OrderedMap String Json}
    (found : nonEmptyText? key members = some text) : text ≠ "" := by
  unfold nonEmptyText? at found
  split at found
  · split at found
    · cases found
    · rename_i filled
      cases found
      exact filled
  · cases found

theorem stated_schema {reference : String} {issuer : Option String} (filled : reference ≠ "")
    (named : issuer ≠ some "") :
    ofMembers (schema reference issuer).members = schema reference issuer := by
  cases issuer with
  | none => simp [ofMembers, members, optionalMember, OrderedMap.ofList, OrderedMap.contains,
      nonEmptyText?, filled]
  | some name =>
    have filled' : name ≠ "" := fun same => named (congrArg some same)
    simp [ofMembers, members, optionalMember, OrderedMap.ofList, OrderedMap.contains,
      nonEmptyText?, filled, filled']

theorem stated_identity {participant : String} (filled : participant ≠ "") :
    ofMembers (identity participant).members = identity participant := by
  simp [ofMembers, members, OrderedMap.ofList, OrderedMap.contains, nonEmptyText?, filled]

theorem stated_credDef {definition : String} (filled : definition ≠ "") :
    ofMembers (credDef definition).members = credDef definition := by
  simp [ofMembers, members, OrderedMap.ofList, OrderedMap.contains, nonEmptyText?, filled]

/-- What members state is a recognised condition with texts that are not empty, or the members
themselves. -/
theorem ofMembers_cases (members : OrderedMap String Json) :
    (∃ reference issuer, reference ≠ "" ∧ issuer ≠ some "" ∧
      ofMembers members = .schema reference issuer) ∨
    (∃ participant, participant ≠ "" ∧ ofMembers members = .identity participant) ∨
    (∃ definition, definition ≠ "" ∧ ofMembers members = .credDef definition) ∨
    ofMembers members = .unrecognized members := by
  unfold ofMembers
  repeat' split
  · rename_i reference found
    refine .inl ⟨reference, _, eq_of_nonEmptyText? found, fun named => ?_, rfl⟩
    exact eq_of_nonEmptyText? named rfl
  · exact .inr (.inr (.inr rfl))
  · rename_i participant found
    exact .inr (.inl ⟨participant, eq_of_nonEmptyText? found, rfl⟩)
  · exact .inr (.inr (.inr rfl))
  · rename_i definition found
    exact .inr (.inr (.inl ⟨definition, eq_of_nonEmptyText? found, rfl⟩))
  · exact .inr (.inr (.inr rfl))
  · exact .inr (.inr (.inr rfl))

/-- A condition that members state is stated by its own members too. -/
theorem ofMembers_members (members : OrderedMap String Json) :
    ofMembers (ofMembers members).members = ofMembers members := by
  rcases ofMembers_cases members with ⟨reference, issuer, filled, named, same⟩ |
    ⟨participant, filled, same⟩ | ⟨definition, filled, same⟩ | same
  · rw [same]
    exact stated_schema filled named
  · rw [same]
    exact stated_identity filled
  · rw [same]
    exact stated_credDef filled
  · rw [same]
    exact same

/-- A condition keeps members that state it or is written with texts. -/
theorem mem_members_ofMembers {members : OrderedMap String Json} {m : String × Json}
    (there : m ∈ (ofMembers members).members.entries) :
    (∃ text, m.2 = .text text) ∨ m ∈ members.entries := by
  rcases ofMembers_cases members with ⟨reference, issuer, -, -, same⟩ | ⟨participant, -, same⟩ |
    ⟨definition, -, same⟩ | same
  · rw [same] at there
    have mem := OrderedMap.mem_entries_ofList there
    cases issuer with
    | none => exact .inl ⟨reference, by simp_all [optionalMember]⟩
    | some name =>
      simp only [optionalMember, List.mem_cons, List.not_mem_nil, or_false] at mem
      rcases mem with rfl | rfl
      · exact .inl ⟨reference, rfl⟩
      · exact .inl ⟨name, rfl⟩
  · rw [same] at there
    exact .inl ⟨participant, by rw [List.mem_singleton.1 (OrderedMap.mem_entries_ofList there)]⟩
  · rw [same] at there
    exact .inl ⟨definition, by rw [List.mem_singleton.1 (OrderedMap.mem_entries_ofList there)]⟩
  · rw [same] at there
    exact .inr there

/-- A condition that was read is settled and nests no deeper than what it was read from. -/
theorem of_decode {t : Term} {c : Condition} (decoded : decode t = .ok c) :
    c.Settled ∧ c.toJson.depth ≤ max 1 t.depth := by
  cases t with
  | object terms =>
    rw [decode] at decoded
    split at decoded
    · cases decoded
      refine ⟨⟨ofMembers_members _, fun m there => ?_⟩, ?_⟩
      · rcases mem_members_ofMembers there with ⟨text, same⟩ | kept
        · rw [same]
          trivial
        · exact Term.membersCanonical_toJson terms m (OrderedMap.mem_entries_ofList kept)
      · have within : Json.membersDepth
            (ofMembers (.ofList (Term.membersToJson terms))).members.entries ≤
              Term.membersDepth terms := by
          refine Json.membersDepth_le_iff.2 fun m there => ?_
          rcases mem_members_ofMembers there with ⟨text, same⟩ | kept
          · rw [same]
            exact Nat.zero_le _
          · exact Term.membersDepth_toJson_le terms m (OrderedMap.mem_entries_ofList kept)
        rw [toJson, Json.depth, Term.depth]
        omega
    · cases decoded
  | _ => cases decoded

/-- A settled condition is read from its written form as it was. -/
theorem decode_ofJson {c : Condition} (settled : c.Settled) : decode (.ofJson c.toJson) = .ok c := by
  have canonical : Json.MembersCanonical c.members.entries :=
    Json.membersCanonical_iff.2 settled.canonical
  have readable : (Term.object (Term.membersOfJson c.members.entries)).readable = true :=
    Json.readable_ofJson (.object c.members.entries)
  rw [toJson, Term.ofJson, decode, if_pos readable, Json.membersToJson_ofJson _ canonical,
    OrderedMap.ofList_entries, settled.stated]

end Condition

/-! ## Entries and participants -/

/-- A member that may be missing nests nothing. -/
theorem membersDepth_optional (key : String) (value : Option String) :
    Json.membersDepth (optionalMember key value) = 0 := by
  cases value <;> rfl

namespace LedgerEntry

/-- The names of the fields of an entry. -/
def fields : List String := ["id", "name"]

/-- An entry that was read keeps what it does not interpret and nests no deeper than what it was read
from. -/
theorem of_decode {source : Source} {t : Term} {e : LedgerEntry}
    (decoded : record.decode source t = .ok e) :
    Uninterpreted fields e.extra ∧ e.toJson.depth ≤ max 1 t.depth := by
  have kept : Kept fields t.depth e.extra := by
    refine Record.decode_induction (P := fun e : LedgerEntry => Kept fields t.depth e.extra)
      ?_ ?_ (kept_empty ..) decoded
    · intro f mem value before after _ kept read
      simp only [record, List.mem_cons, List.not_mem_nil, or_false] at mem
      rcases mem with rfl | rfl <;>
      · obtain ⟨_, -, rfl⟩ := Except.eq_ok_of_map read
        exact kept
    · intro add collects key value before foreign shallow kept
      cases collects
      exact kept.insert foreign shallow
  refine ⟨kept.uninterpreted, ?_⟩
  have within := kept.membersDepth_le
  simp only [toJson, Json.depth, Json.membersDepth, List.cons_append, Json.membersDepth_append,
    membersDepth_optional]
  omega

/-- An entry whose further members are uninterpreted is read from its written form as it was. -/
theorem decode_ofJson (source : Source) {e : LedgerEntry} (kept : Uninterpreted fields e.extra) :
    record.decode source (.ofJson e.toJson) = .ok e := by
  obtain ⟨id, name, extra⟩ := e
  have rest := record.readMembers_extra source rfl (fun extra => ⟨id, name, extra⟩)
    (fun _ _ _ => rfl) kept
  cases name with
  | none =>
    refine Record.decode_of_readMembers ["id"] ?_ rfl
    exact (Record.readMembers_known rfl (by simp) rfl _).trans (rest ["id"])
  | some name =>
    refine Record.decode_of_readMembers ["name", "id"] ?_ rfl
    refine (Record.readMembers_known rfl (by simp) rfl _).trans ?_
    exact (Record.readMembers_known rfl (by simp) rfl _).trans (rest ["name", "id"])

end LedgerEntry

namespace Participant

/-- The names of the fields of a participant. -/
def fields : List String := ["id", "name", "did"]

/-- A participant that was read keeps what it does not interpret and nests no deeper than what it was
read from. -/
theorem of_decode {source : Source} {t : Term} {p : Participant}
    (decoded : record.decode source t = .ok p) :
    Uninterpreted fields p.extra ∧ p.toJson.depth ≤ max 1 t.depth := by
  have kept : Kept fields t.depth p.extra := by
    refine Record.decode_induction (P := fun p : Participant => Kept fields t.depth p.extra)
      ?_ ?_ (kept_empty ..) decoded
    · intro f mem value before after _ kept read
      simp only [record, List.mem_cons, List.not_mem_nil, or_false] at mem
      rcases mem with rfl | rfl | rfl <;>
      · obtain ⟨_, -, rfl⟩ := Except.eq_ok_of_map read
        exact kept
    · intro add collects key value before foreign shallow kept
      cases collects
      exact kept.insert foreign shallow
  refine ⟨kept.uninterpreted, ?_⟩
  have within := kept.membersDepth_le
  simp only [toJson, Json.depth, Json.membersDepth, List.cons_append, Json.membersDepth_append,
    membersDepth_optional]
  omega

/-- A participant whose further members are uninterpreted is read from its written form as it was. -/
theorem decode_ofJson (source : Source) {p : Participant} (kept : Uninterpreted fields p.extra) :
    record.decode source (.ofJson p.toJson) = .ok p := by
  obtain ⟨id, name, did, extra⟩ := p
  have rest := record.readMembers_extra source rfl (fun extra => ⟨id, name, did, extra⟩)
    (fun _ _ _ => rfl) kept
  cases name with
  | none =>
    cases did with
    | none =>
      refine Record.decode_of_readMembers ["id"] ?_ rfl
      exact (Record.readMembers_known rfl (by simp) rfl _).trans (rest ["id"])
    | some did =>
      refine Record.decode_of_readMembers ["did", "id"] ?_ rfl
      refine (Record.readMembers_known rfl (by simp) rfl _).trans ?_
      exact (Record.readMembers_known rfl (by simp) rfl _).trans (rest ["did", "id"])
  | some name =>
    cases did with
    | none =>
      refine Record.decode_of_readMembers ["name", "id"] ?_ rfl
      refine (Record.readMembers_known rfl (by simp) rfl _).trans ?_
      exact (Record.readMembers_known rfl (by simp) rfl _).trans (rest ["name", "id"])
    | some did =>
      refine Record.decode_of_readMembers ["did", "name", "id"] ?_ rfl
      refine (Record.readMembers_known rfl (by simp) rfl _).trans ?_
      refine (Record.readMembers_known rfl (by simp) rfl _).trans ?_
      exact (Record.readMembers_known rfl (by simp) rfl _).trans (rest ["did", "name", "id"])

end Participant

/-! ## Rules -/

/-- A written list is read item by item. -/
theorem Decode.list_ofJson {α : Type} {decode : Term → Decoded α} {write : α → Json} {items : List α}
    (each : ∀ a ∈ items, decode (.ofJson (write a)) = .ok a) :
    Decode.list decode (.ofJson (.array (items.map write))) = .ok items := by
  have read : Decode.list decode (.array (items.map fun a => .ofJson (write a))) =
      .ok (items.map id) := Decode.list_map each
  rw [List.map_id] at read
  rw [Term.ofJson, Json.itemsOfJson_eq_map, List.map_map]
  exact read

/-- What holds of every item that is decoded holds of a list, whose items lie two levels deeper than what
the list is a part of. -/
theorem Decode.each_of_list {α : Type} {decode : Term → Decoded α} {write : α → Json}
    {P : α → Prop} {base depth : Nat}
    (item : ∀ {t a}, decode t = .ok a → P a ∧ (write a).depth ≤ max base t.depth) {t : Term}
    (within : t.depth < depth) {values : List α} (decoded : Decode.list decode t = .ok values) :
    (∀ a ∈ values, P a) ∧ ∀ a ∈ values, (write a).depth ≤ max base (depth - 2) := by
  have each : ∀ a ∈ values, P a ∧ (write a).depth ≤ max base (depth - 2) := by
    intro a there
    obtain ⟨inner, deeper, found⟩ := Decode.of_list decoded a there
    obtain ⟨holds, shallow⟩ := item found
    exact ⟨holds, by omega⟩
  exact ⟨fun a there => (each a there).1, fun a there => (each a there).2⟩

/-- A variant is decoded from an object of its name and its content. -/
theorem Decode.variant_ofJson {α : Type} {names : List String} {content : String → Term → Decoded α}
    {source : Source} {name : String} {v : Json} {a : α} (known : name ∈ names)
    (decoded : content name (.ofJson v) = .ok a) :
    Decode.variant names content source (.ofJson (.object [(name, v)])) = .ok a := by
  cases source with
  | text => simp [Term.ofJson, Term.membersOfJson, Decode.variant, known, decoded]
  | _ => exact (if_pos known).trans decoded

theorem Decode.list_texts (texts : List String) :
    Decode.list Decode.text (.ofJson (.array (texts.map .text))) = .ok texts :=
  Decode.list_ofJson fun _ _ => rfl

namespace Requirement

/-- A requirement whose conditions are settled. -/
def Settled (r : Requirement) : Prop := ∀ c ∈ r.conditions, c.Settled

theorem depth_toJson (r : Requirement) :
    r.toJson.depth = 2 + Json.itemsDepth (r.conditions.map Condition.toJson) := by
  cases r <;>
  · simp only [toJson, conditions, Json.depth, Json.membersDepth]
    omega

/-- A requirement that was read is settled and nests no deeper than what it was read from. -/
theorem of_decode {source : Source} {t : Term} {r : Requirement}
    (decoded : decode source t = .ok r) : r.Settled ∧ r.toJson.depth ≤ max 3 t.depth := by
  obtain ⟨kind, -, value, within, found⟩ := Decode.of_variant decoded
  obtain ⟨conditions, read, same⟩ := Except.eq_ok_of_map found
  have own : r.conditions = conditions := by
    rw [← same]
    split <;> rfl
  obtain ⟨settled, shallow⟩ := Decode.each_of_list Condition.of_decode within read
  have shallow := Json.itemsDepth_map_le shallow
  rw [depth_toJson, Settled, own]
  exact ⟨settled, by omega⟩

/-- A settled requirement is read from its written form as it was. -/
theorem decode_ofJson (source : Source) {r : Requirement} (settled : r.Settled) :
    decode source (.ofJson r.toJson) = .ok r := by
  have read := Decode.list_ofJson fun c there => Condition.decode_ofJson (settled c there)
  cases r with
  | all conditions =>
    have own : decodeKind "and" (.ofJson (.array (conditions.map Condition.toJson))) =
        .ok (.all conditions) := congrArg (Except.map Requirement.all) read
    exact Decode.variant_ofJson (by decide) own
  | any conditions =>
    have own : decodeKind "any" (.ofJson (.array (conditions.map Condition.toJson))) =
        .ok (.any conditions) := congrArg (Except.map Requirement.any) read
    exact Decode.variant_ofJson (by decide) own

end Requirement

namespace Rule

theorem depth_toJson (r : Rule) : r.toJson.depth = 1 + max 1 r.requirement.toJson.depth := by
  simp only [toJson, Json.depth, Json.membersDepth, Json.itemsDepth_texts]
  omega

/-- The requirement of a rule that was read is settled, and the rule nests no deeper than what it was
read from. -/
theorem of_decode {source : Source} {t : Term} {r : Rule} (decoded : record.decode source t = .ok r) :
    r.requirement.Settled ∧ r.toJson.depth ≤ max 4 t.depth := by
  have kept : r.requirement.Settled ∧ r.requirement.toJson.depth ≤ max 3 (t.depth - 1) := by
    refine Record.decode_induction
      (P := fun r : Rule => r.requirement.Settled ∧ r.requirement.toJson.depth ≤ max 3 (t.depth - 1))
      ?_ ?_ ⟨?_, ?_⟩ decoded
    · intro f mem value before after within kept read
      simp only [record, List.mem_cons, List.not_mem_nil, or_false] at mem
      rcases mem with rfl | rfl
      · obtain ⟨_, -, rfl⟩ := Except.eq_ok_of_map read
        exact kept
      · obtain ⟨requirement, found, rfl⟩ := Except.eq_ok_of_map read
        obtain ⟨settled, shallow⟩ := Requirement.of_decode found
        exact ⟨settled, by dsimp only; omega⟩
    · intro add collects
      cases collects
    · exact List.forall_mem_nil _
    · exact Nat.le_trans (by decide) (Nat.le_max_left ..)
  rw [depth_toJson]
  exact ⟨kept.1, by omega⟩

/-- A rule with a settled requirement is read from its written form as it was. -/
theorem decode_ofJson (source : Source) {r : Rule} (settled : r.requirement.Settled) :
    record.decode source (.ofJson r.toJson) = .ok r := by
  have grant := Decode.list_texts r.grant.toList
  have rebuilt := OrderedSet.ofList_toList r.grant
  refine Record.decode_of_readMembers ["when", "grant"] ?_ rfl
  refine (Record.readMembers_known rfl (by simp) (congrArg (Except.map _) grant) _).trans ?_
  refine (Record.readMembers_known rfl (by simp)
    (congrArg (Except.map _) (Requirement.decode_ofJson source settled)) _).trans ?_
  exact congrArg (fun grant => Except.ok (["when", "grant"], Rule.mk grant r.requirement)) rebuilt

end Rule

/-! ## Frameworks -/

namespace Framework

/-- The names of the fields of a framework. -/
def fields : List String := ["schemas", "cred_defs", "participants", "roles", "permissions"]

/-- A framework as it may have been read: its rules are settled, and what it does not interpret is
canonical and stands under names of no fields. -/
structure Proper (f : Framework) : Prop where
  schemas : ∀ e ∈ f.schemas, Uninterpreted LedgerEntry.fields e.extra
  credDefs : ∀ e ∈ f.credDefs, Uninterpreted LedgerEntry.fields e.extra
  participants : ∀ p ∈ f.participants, Uninterpreted Participant.fields p.extra
  permissions : ∀ r ∈ f.permissions, r.requirement.Settled
  extra : Uninterpreted fields f.extra

/-- The parts of a framework nest less deep than a term. -/
structure Fits (depth : Nat) (f : Framework) : Prop where
  schemas : ∀ e ∈ f.schemas, e.toJson.depth ≤ max 1 (depth - 2)
  credDefs : ∀ e ∈ f.credDefs, e.toJson.depth ≤ max 1 (depth - 2)
  participants : ∀ p ∈ f.participants, p.toJson.depth ≤ max 1 (depth - 2)
  permissions : ∀ r ∈ f.permissions, r.toJson.depth ≤ max 4 (depth - 2)
  extra : Json.membersDepth f.extra.entries ≤ depth - 1

theorem membersDepth_credDefs_le {credDefs : List LedgerEntry} {depth : Nat}
    (each : ∀ e ∈ credDefs, e.toJson.depth ≤ depth) :
    Json.membersDepth (credDefsMember credDefs) ≤ 1 + depth := by
  unfold credDefsMember
  split
  · exact Nat.zero_le _
  · have within := Json.itemsDepth_map_le each
    simp only [Json.membersDepth, Json.depth]
    omega

theorem Fits.depth_toJson_le {depth : Nat} {f : Framework} (fits : f.Fits depth) :
    f.toJson.depth ≤ max 6 depth := by
  have schemas := Json.itemsDepth_map_le fits.schemas
  have credDefs := membersDepth_credDefs_le fits.credDefs
  have participants := Json.itemsDepth_map_le fits.participants
  have permissions := Json.itemsDepth_map_le fits.permissions
  have extra := fits.extra
  simp only [toJson, Json.depth, Json.membersDepth, Json.membersDepth_append, Json.itemsDepth_texts]
  omega

/-- A framework that was read is proper and nests no deeper than what it was read from. -/
theorem of_decode {source : Source} {t : Term} {f : Framework}
    (decoded : decode source t = .ok f) : f.Proper ∧ f.toJson.depth ≤ max 6 t.depth := by
  have kept : (f.Proper ∧ f.Fits t.depth) ∧ Kept fields t.depth f.extra := by
    refine Record.decode_induction
      (P := fun f : Framework => (f.Proper ∧ f.Fits t.depth) ∧ Kept fields t.depth f.extra)
      ?_ ?_ ?_ decoded
    · rintro field mem value before after within ⟨⟨proper, fits⟩, kept⟩ read
      simp only [record, List.mem_cons, List.not_mem_nil, or_false] at mem
      rcases mem with rfl | rfl | rfl | rfl | rfl
      · obtain ⟨schemas, found, rfl⟩ := Except.eq_ok_of_map read
        obtain ⟨own, shallow⟩ := Decode.each_of_list LedgerEntry.of_decode within found
        exact ⟨⟨{ proper with schemas := own }, { fits with schemas := shallow }⟩, kept⟩
      · obtain ⟨credDefs, found, rfl⟩ := Except.eq_ok_of_map read
        obtain ⟨own, shallow⟩ := Decode.each_of_list LedgerEntry.of_decode within found
        exact ⟨⟨{ proper with credDefs := own }, { fits with credDefs := shallow }⟩, kept⟩
      · obtain ⟨participants, found, rfl⟩ := Except.eq_ok_of_map read
        obtain ⟨own, shallow⟩ := Decode.each_of_list Participant.of_decode within found
        exact ⟨⟨{ proper with participants := own }, { fits with participants := shallow }⟩, kept⟩
      · obtain ⟨roles, -, rfl⟩ := Except.eq_ok_of_map read
        exact ⟨⟨{ proper with }, { fits with }⟩, kept⟩
      · obtain ⟨permissions, found, rfl⟩ := Except.eq_ok_of_map read
        obtain ⟨own, shallow⟩ := Decode.each_of_list Rule.of_decode within found
        exact ⟨⟨{ proper with permissions := own }, { fits with permissions := shallow }⟩, kept⟩
    · rintro add collects key value before foreign shallow ⟨⟨proper, fits⟩, kept⟩
      cases collects
      have more := kept.insert foreign shallow
      exact ⟨⟨{ proper with extra := more.uninterpreted },
        { fits with extra := more.membersDepth_le }⟩, more⟩
    · have none := kept_empty fields t.depth
      refine ⟨⟨⟨?_, ?_, ?_, ?_, none.uninterpreted⟩, ⟨?_, ?_, ?_, ?_, none.membersDepth_le⟩⟩, none⟩ <;>
        exact List.forall_mem_nil _
  exact ⟨kept.1.1, kept.1.2.depth_toJson_le⟩

/-- A proper framework is read from its written form as it was. -/
theorem decode_ofJson {source : Source} {f : Framework} (proper : f.Proper) :
    decode source (.ofJson f.toJson) = .ok f := by
  have rest := record.readMembers_extra source rfl (fun extra => { f with extra })
    (fun _ _ _ => rfl) proper.extra
  have schemas := Decode.list_ofJson fun e there =>
    LedgerEntry.decode_ofJson source (proper.schemas e there)
  have credDefs := Decode.list_ofJson fun e there =>
    LedgerEntry.decode_ofJson source (proper.credDefs e there)
  have participants := Decode.list_ofJson fun p there =>
    Participant.decode_ofJson source (proper.participants p there)
  have roles := Decode.list_texts f.roles
  have permissions := Decode.list_ofJson fun r there =>
    Rule.decode_ofJson source (proper.permissions r there)
  have later : ∀ seen, "participants" ∉ seen → "roles" ∉ seen → "permissions" ∉ seen →
      record.readMembers source seen ⟨f.schemas, f.credDefs, [], [], [], .empty⟩
        (Term.membersOfJson ([("participants", .array (f.participants.map Participant.toJson)),
          ("roles", .array (f.roles.map .text)),
          ("permissions", .array (f.permissions.map Rule.toJson))] ++ f.extra.entries)) =
        .ok ("permissions" :: "roles" :: "participants" :: seen, f) := by
    intro seen first second third
    refine (Record.readMembers_known rfl first (congrArg (Except.map _) participants) _).trans ?_
    refine (Record.readMembers_known rfl (by simpa using second)
      (congrArg (Except.map _) roles) _).trans ?_
    refine (Record.readMembers_known rfl (by simpa using third)
      (congrArg (Except.map _) permissions) _).trans ?_
    exact rest _
  obtain ⟨f_schemas, f_credDefs, f_participants, f_roles, f_permissions, f_extra⟩ := f
  cases f_credDefs with
  | nil =>
    refine Record.decode_of_readMembers
      ["permissions", "roles", "participants", "schemas"] ?_ rfl
    refine (Record.readMembers_known rfl (by simp) (congrArg (Except.map _) schemas) _).trans ?_
    exact later _ (by simp) (by simp) (by simp)
  | cons =>
    refine Record.decode_of_readMembers
      ["permissions", "roles", "participants", "cred_defs", "schemas"] ?_ rfl
    refine (Record.readMembers_known rfl (by simp) (congrArg (Except.map _) schemas) _).trans ?_
    refine (Record.readMembers_known rfl (by simp) (congrArg (Except.map _) credDefs) _).trans ?_
    exact later _ (by simp) (by simp) (by simp)

end Framework

end TrustMesh
