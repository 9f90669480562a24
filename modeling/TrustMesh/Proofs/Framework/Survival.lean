import TrustMesh.Proofs.Framework.Relaying

/-!
# What survives in a document

A document may say more than is interpreted, at every level. The document, its entries and
its participants keep what they do not interpret, and so does a condition that is not
recognised. A rule, and a condition that is recognised, drop it
(`Framework.uninterpreted_kept`).

Documents are values with the members of each object in key order, each key once.
-/

namespace TrustMesh

open Std

/-! ## Places in a document -/

namespace Json

/-- The item of an array at a position. -/
def item? (i : Nat) : Json → Option Json
  | .array items => items[i]?
  | _ => none

theorem itemsCanonical_iff {items : List Json} :
    ItemsCanonical items ↔ ∀ v ∈ items, v.Canonical := by
  induction items with
  | nil => simp [ItemsCanonical]
  | cons item rest ih => simp [ItemsCanonical, ih]

theorem Canonical.get? {v w : Json} {key : String} (canonical : v.Canonical)
    (found : v.get? key = some w) : w.Canonical := by
  cases v with
  | object members =>
    obtain ⟨k, -, there⟩ := OrderedMap.lookup_mem found
    exact membersCanonical_iff.1 canonical.2 _ there
  | _ => cases found

theorem Canonical.item? {v w : Json} {i : Nat} (canonical : v.Canonical)
    (found : v.item? i = some w) : w.Canonical := by
  cases v with
  | array items => exact itemsCanonical_iff.1 canonical _ (List.mem_of_getElem? found)
  | _ => cases found

end Json

/-- The requirement of a rule, which may also be written as the array of its fields. -/
def Rule.when? : Json → Option Json
  | .object members => OrderedMap.lookup "when" members
  | .array items => items[1]?
  | _ => none

/-- The conditions of a requirement. -/
def Requirement.conditions? (v : Json) : Option Json := (v.get? "and").or (v.get? "any")

/-- The places in a document where an object states what is interpreted: the document itself, its
schemas, its credential definitions, its participants, its rules, and their conditions. -/
inductive Place where
  | document
  | schema (i : Nat)
  | credDef (i : Nat)
  | participant (i : Nat)
  | rule (i : Nat)
  | condition (i j : Nat)

namespace Place

/-- The value at a place of a document. -/
def at? : Place → Json → Option Json
  | .document, v => some v
  | .schema i, v => (v.get? "schemas").bind (·.item? i)
  | .credDef i, v => (v.get? "cred_defs").bind (·.item? i)
  | .participant i, v => (v.get? "participants").bind (·.item? i)
  | .rule i, v => (v.get? "permissions").bind (·.item? i)
  | .condition i j, v => ((((v.get? "permissions").bind (·.item? i)).bind Rule.when?).bind
    Requirement.conditions?).bind (·.item? j)

end Place

namespace Framework

/-- The condition of a rule, both given by their positions. -/
def condition? (f : Framework) (i j : Nat) : Option Condition :=
  f.permissions[i]?.bind (·.requirement.conditions[j]?)

/-- The written form of what a framework holds at a place. -/
def part? (f : Framework) : Place → Option Json
  | .document => some f.toJson
  | .schema i => f.schemas[i]?.map LedgerEntry.toJson
  | .credDef i => f.credDefs[i]?.map LedgerEntry.toJson
  | .participant i => f.participants[i]?.map Participant.toJson
  | .rule i => f.permissions[i]?.map Rule.toJson
  | .condition i j => (f.condition? i j).map Condition.toJson

end Framework

/-! ## What is written at a place -/

section Written

variable {key : String}

theorem OrderedMap.lookup_append (first second : List (String × Json)) :
    OrderedMap.lookup key (first ++ second) =
      (OrderedMap.lookup key first).or (OrderedMap.lookup key second) := by
  induction first with
  | nil => rfl
  | cons member rest ih =>
    simp only [List.cons_append, OrderedMap.lookup, ih]
    split <;> rfl

theorem lookup_optionalMember {name : String} (other : key ≠ name) (value : Option String) :
    OrderedMap.lookup key (optionalMember name value) = none := by
  cases value <;> simp [optionalMember, OrderedMap.lookup, other]

/-- Among its members an entry is written with those that it does not interpret. -/
theorem LedgerEntry.get?_toJson (foreign : key ∉ LedgerEntry.fields) (e : LedgerEntry) :
    e.toJson.get? key = e.extra.get? key := by
  simp only [fields, List.mem_cons, List.not_mem_nil, or_false, not_or] at foreign
  simp [toJson, Json.get?, OrderedMap.lookup, OrderedMap.lookup_append, foreign,
    lookup_optionalMember foreign.2, OrderedMap.get?]

theorem Participant.get?_toJson (foreign : key ∉ Participant.fields) (p : Participant) :
    p.toJson.get? key = p.extra.get? key := by
  simp only [fields, List.mem_cons, List.not_mem_nil, or_false, not_or] at foreign
  simp [toJson, Json.get?, OrderedMap.lookup, OrderedMap.lookup_append, foreign,
    lookup_optionalMember foreign.2.1, lookup_optionalMember foreign.2.2, OrderedMap.get?]

theorem Framework.get?_toJson (foreign : key ∉ Framework.fields) (f : Framework) :
    f.toJson.get? key = f.extra.get? key := by
  simp only [fields, List.mem_cons, List.not_mem_nil, or_false, not_or] at foreign
  have credDefs : OrderedMap.lookup key (credDefsMember f.credDefs) = none := by
    unfold credDefsMember
    split <;> simp [OrderedMap.lookup, foreign]
  simp [toJson, Json.get?, OrderedMap.lookup, OrderedMap.lookup_append, foreign, credDefs,
    OrderedMap.get?]

theorem item?_array_map {α : Type} (write : α → Json) (items : List α) (i : Nat) :
    (Json.array (items.map write)).item? i = items[i]?.map write := List.getElem?_map ..

/-- What a framework holds at a place is written there. -/
theorem Place.at?_toJson {f : Framework} {place : Place} {w : Json}
    (held : f.part? place = some w) : place.at? f.toJson = some w := by
  have plain : ∀ key, key ≠ "cred_defs" →
      OrderedMap.lookup key (Framework.credDefsMember f.credDefs) = none := by
    intro key other
    unfold Framework.credDefsMember
    split <;> simp [OrderedMap.lookup, other]
  have rules : f.toJson.get? "permissions" = some (.array (f.permissions.map Rule.toJson)) := by
    simp [Framework.toJson, Json.get?, OrderedMap.lookup, OrderedMap.lookup_append, plain]
  rw [← held]
  cases place with
  | document => rfl
  | schema i =>
    simp [at?, Framework.toJson, Json.get?, OrderedMap.lookup, item?_array_map, Framework.part?]
  | credDef i =>
    have filled : f.credDefs.isEmpty = false := by
      cases none : f.credDefs with
      | nil => simp [Framework.part?, none] at held
      | cons => rfl
    simp [at?, Framework.toJson, Json.get?, OrderedMap.lookup, item?_array_map, Framework.part?,
      Framework.credDefsMember, filled]
  | participant i =>
    simp [at?, Framework.toJson, Json.get?, OrderedMap.lookup, item?_array_map, Framework.part?,
      OrderedMap.lookup_append, plain]
  | rule i => simp [at?, rules, item?_array_map, Framework.part?]
  | condition i j =>
    simp only [at?, rules, Option.bind_some, item?_array_map, Framework.part?, Framework.condition?]
    cases f.permissions[i]? with
    | none => rfl
    | some rule =>
      obtain ⟨grant, requirement⟩ := rule
      cases requirement <;>
        simp [Rule.when?, Rule.toJson, OrderedMap.lookup, Requirement.toJson,
          Requirement.conditions?, Json.get?, item?_array_map, Requirement.conditions]

end Written

/-! ## What is read from a place -/

namespace Record.Orderless

variable {α β : Type} {r : Record α} {source : Source} {u v : Json} {key : String} {a : α}

/-- Whatever stands under a key may be read last. -/
theorem exists_reads (orderless : r.Orderless source) (canonical : u.Canonical)
    (decoded : r.decode source (.ofJson u) = .ok a) (found : u.get? key = some v) :
    ∃ before, r.Reads source key v before a := by
  cases u with
  | object members =>
    rw [Term.ofJson, decode, decodeMembers] at decoded
    split at decoded
    · cases decoded
    · rename_i seen record read
      split at decoded
      · cases decoded
      · cases decoded
        let m : OrderedMap String Json := ⟨members, canonical.1⟩
        have perm := OrderedMap.entries_perm_of_get? (m := m) found
        have reads := orderless.readsAll_perm perm m.nodup_keys (readMembers_iff.1 read).1
        obtain ⟨before, -, last⟩ := readsAll_append.1 reads
        exact ⟨before, readsAll_singleton.1 last⟩
  | _ => cases found

/-- A field holds what is decoded from its member. -/
theorem decode_field (orderless : r.Orderless source) (canonical : u.Canonical)
    (decoded : r.decode source (.ofJson u) = .ok a) (found : u.get? key = some v) {f : Field α}
    (known : r.fields.find? (·.name = key) = some f) {decode : Term → Decoded β} {set : β → α → α}
    (sets : ∀ t a, f.read source t a = (decode t).map (set · a)) (get : α → β)
    (own : ∀ x a, get (set x a) = x) : decode (.ofJson v) = .ok (get a) := by
  obtain ⟨before, reads⟩ := orderless.exists_reads canonical decoded found
  simp only [Reads, known, sets] at reads
  obtain ⟨x, read, rfl⟩ := Except.eq_ok_of_map reads
  rw [read, own]

/-- A member that is not known is kept by a record that files such members. -/
theorem get?_extra (orderless : r.Orderless source) (canonical : u.Canonical)
    (decoded : r.decode source (.ofJson u) = .ok a) (found : u.get? key = some v)
    (foreign : key ∉ r.fields.map Field.name) (extra : α → OrderedMap String Json)
    (files : ∀ key t a, extra (r.keep key t a) = (extra a).insert key t.toJson) :
    (extra a).get? key = some v := by
  obtain ⟨before, reads⟩ := orderless.exists_reads canonical decoded found
  have unknown : r.fields.find? (·.name = key) = none := List.find?_eq_none.2 fun f mem same =>
    foreign (List.mem_map.2 ⟨f, mem, of_decide_eq_true same⟩)
  simp only [Reads, unknown] at reads
  rw [reads, files, OrderedMap.get?_insert, if_pos rfl, Json.toJson_ofJson _ (canonical.get? found)]

end Record.Orderless

/-- A list holds at each position what is decoded from the item there. -/
theorem Decode.getElem?_of_list {α : Type} {decode : Term → Decoded α} {u v : Json}
    {values : List α} (decoded : Decode.list decode (.ofJson u) = .ok values) {i : Nat}
    (found : u.item? i = some v) : ∃ a, values[i]? = some a ∧ decode (.ofJson v) = .ok a := by
  cases u with
  | array items =>
    rw [Term.ofJson, Json.itemsOfJson_eq_map, Decode.list] at decoded
    replace found : items[i]? = some v := found
    induction items generalizing values i with
    | nil => cases found
    | cons item rest ih =>
      obtain ⟨a, others, first, later, rfl⟩ := Decode.of_mapM_cons decoded
      cases i with
      | zero =>
        cases found
        exact ⟨a, rfl, first⟩
      | succ i =>
        obtain ⟨b, held, own⟩ := ih later found
        exact ⟨b, held, own⟩
  | _ => cases found

namespace LedgerEntry

/-- An entry keeps what it does not interpret. -/
theorem get?_of_decode {u value : Json} {key : String} {e : LedgerEntry} (canonical : u.Canonical)
    (decoded : record.decode .value (.ofJson u) = .ok e) (found : u.get? key = some value)
    (foreign : key ∉ fields) : e.toJson.get? key = some value := by
  rw [get?_toJson foreign]
  exact (orderless_record .value).get?_extra canonical decoded found foreign (·.extra)
    fun _ _ _ => rfl

end LedgerEntry

namespace Participant

/-- A participant keeps what it does not interpret. -/
theorem get?_of_decode {u value : Json} {key : String} {p : Participant} (canonical : u.Canonical)
    (decoded : record.decode .value (.ofJson u) = .ok p) (found : u.get? key = some value)
    (foreign : key ∉ fields) : p.toJson.get? key = some value := by
  rw [get?_toJson foreign]
  exact (orderless_record .value).get?_extra canonical decoded found foreign (·.extra)
    fun _ _ _ => rfl

end Participant

namespace Condition

/-- The names that conditions interpret. -/
def fields : List String := ["schema", "issuer", "id", "cred_def"]

/-- Whether a condition is of a form that is recognised. -/
def isRecognized : Condition → Bool
  | .unrecognized _ => false
  | _ => true

/-- A condition keeps what it says beside the names that are interpreted if it is not recognised. -/
theorem get?_of_decode {u value : Json} {key : String} {c : Condition} (canonical : u.Canonical)
    (decoded : decode (.ofJson u) = .ok c) (found : u.get? key = some value)
    (foreign : c.isRecognized = true → key ∉ fields) :
    c.toJson.get? key = if c.isRecognized then none else some value := by
  cases u with
  | object members =>
    let object : OrderedMap String Json := ⟨members, canonical.1⟩
    have values : ∀ m ∈ object.entries, m.2.Canonical := Json.membersCanonical_iff.1 canonical.2
    have plain : Json.canonicalMembers members = members := Json.canonicalMembers_entries values
    have whole : (OrderedMap.ofList members).entries = members := OrderedMap.entries_ofList canonical.1
    rw [Term.ofJson, decode_object, plain] at decoded
    cases decoded
    simp only [fields, List.mem_cons, List.not_mem_nil, or_false, not_or] at foreign
    rcases ofMembers_cases (.ofList members) with ⟨reference, issuer, -, -, same⟩ |
      ⟨participant, -, same⟩ | ⟨definition, -, same⟩ | same
    · rw [same] at foreign ⊢
      obtain ⟨apart, apart', -⟩ := foreign rfl
      show (OrderedMap.ofList _).get? key = none
      cases issuer <;> simp [optionalMember, OrderedMap.ofList, apart, apart']
    · rw [same] at foreign ⊢
      show (OrderedMap.ofList _).get? key = none
      simp [OrderedMap.ofList, foreign rfl]
    · rw [same] at foreign ⊢
      show (OrderedMap.ofList _).get? key = none
      simp [OrderedMap.ofList, foreign rfl]
    · rw [same, toJson, Condition.members, Json.get?, whole]
      exact found
  | _ => cases found

end Condition

namespace Requirement

theorem canonical_conditions? {u v : Json} (canonical : u.Canonical)
    (found : conditions? u = some v) : v.Canonical := by
  rcases Option.or_eq_some_iff.1 found with all | ⟨-, any⟩
  · exact canonical.get? all
  · exact canonical.get? any

/-- A requirement holds the conditions that it is written with. -/
theorem conditions_of_decode {u v : Json} {r : Requirement}
    (decoded : decode .value (.ofJson u) = .ok r) (found : conditions? u = some v) :
    Decode.list Condition.decode (.ofJson v) = .ok r.conditions := by
  have alone : ∃ key value, u = .object [(key, value)] ∧ key ∈ kinds ∧
      decodeKind key (.ofJson value) = .ok r := by
    cases u with
    | object members =>
      rcases members with _ | ⟨⟨key, value⟩, _ | ⟨other, rest⟩⟩
      · cases found
      · simp only [decode, Term.ofJson, Term.membersOfJson, Decode.variant] at decoded
        split at decoded
        · rename_i known
          exact ⟨key, value, rfl, known, decoded⟩
        · cases decoded
      · cases decoded
    | _ => cases found
  obtain ⟨key, value, rfl, known, read⟩ := alone
  obtain ⟨conditions, listed, rfl⟩ := Except.eq_ok_of_map read
  simp only [kinds, List.mem_cons, List.not_mem_nil, or_false] at known
  rcases known with rfl | rfl
  · cases found
    exact listed
  · cases found
    exact listed

end Requirement

namespace Rule

/-- A rule has the requirement that it is written with. -/
theorem requirement_of_decode {u v : Json} {r : Rule} (canonical : u.Canonical)
    (decoded : record.decode .value (.ofJson u) = .ok r) (found : when? u = some v) :
    Requirement.decode .value (.ofJson v) = .ok r.requirement := by
  cases u with
  | object members =>
    exact (orderless_record .value).decode_field canonical decoded found rfl (fun _ _ => rfl)
      (·.requirement) fun _ _ => rfl
  | array items =>
    have read : record.readItems .value items.length 0 record.fields record.start
        (items.map .ofJson) = .ok r := by
      rw [Term.ofJson, Json.itemsOfJson_eq_map] at decoded
      simpa [Record.decode, record] using decoded
    rcases items with _ | ⟨grant, _ | ⟨requirement, rest⟩⟩
    · cases found
    · cases found
    · cases found
      simp only [record, List.map_cons, Record.readItems, Field.required] at read
      split at read
      · split at read
        · rename_i filled
          obtain ⟨requirement, own, rfl⟩ := Except.eq_ok_of_map filled
          cases rest with
          | nil =>
            cases read
            exact own
          | cons => cases read
        · cases read
      · cases read
  | _ => cases found

theorem canonical_when? {u v : Json} (canonical : u.Canonical) (found : when? u = some v) :
    v.Canonical := by
  cases u with
  | object members => exact canonical.get? (v := .object members) found
  | array items => exact canonical.item? (v := .array items) found
  | _ => cases found

/-- The names of the fields of a rule. -/
def fields : List String := ["grant", "when"]

/-- Beside its fields a rule is written with nothing. -/
theorem get?_toJson {key : String} (foreign : key ∉ fields) (r : Rule) :
    r.toJson.get? key = none := by
  simp only [fields, List.mem_cons, List.not_mem_nil, or_false, not_or] at foreign
  simp [toJson, Json.get?, OrderedMap.lookup, foreign]

end Rule

namespace Framework

variable {f : Framework} {v u w value : Json} {key : String} {i j : Nat}

/-- What stands at a position of a list in a document is decoded to what the framework holds there. -/
theorem item_of_field {α : Type} {name : String} {decode : Term → Decoded α}
    {set : List α → Framework → Framework} {field : Field Framework} (get : Framework → List α)
    (known : record.fields.find? (·.name = name) = some field)
    (sets : ∀ t a, field.read .value t a = (Decode.list decode t).map (set · a))
    (own : ∀ x a, get (set x a) = x) (canonical : v.Canonical) (read : ofJson v = .ok f)
    (there : (v.get? name).bind (·.item? i) = some u) :
    ∃ a, (get f)[i]? = some a ∧ decode (.ofJson u) = .ok a ∧ u.Canonical := by
  obtain ⟨list, listed, item⟩ := Option.bind_eq_some_iff.1 there
  have decoded := (orderless_record .value).decode_field canonical read listed known sets get own
  obtain ⟨a, held, own⟩ := Decode.getElem?_of_list decoded item
  exact ⟨a, held, own, (canonical.get? listed).item? item⟩

theorem condition_of_at? (canonical : v.Canonical) (read : ofJson v = .ok f)
    (there : (Place.condition i j).at? v = some u) : ∃ c, f.condition? i j = some c ∧
      Condition.decode (.ofJson u) = .ok c ∧ u.Canonical := by
  obtain ⟨conditions, there, item⟩ := Option.bind_eq_some_iff.1 there
  obtain ⟨requirement, there, stated⟩ := Option.bind_eq_some_iff.1 there
  obtain ⟨rule, there, needed⟩ := Option.bind_eq_some_iff.1 there
  obtain ⟨r, held, own, proper⟩ :=
    item_of_field permissions rfl (fun _ _ => rfl) (fun _ _ => rfl) canonical read there
  have decoded := Requirement.conditions_of_decode
    (Rule.requirement_of_decode proper own needed) stated
  obtain ⟨c, there, own⟩ := Decode.getElem?_of_list decoded item
  refine ⟨c, ?_, own, ?_⟩
  · rw [condition?, held]
    exact there
  · exact (Requirement.canonical_conditions? (Rule.canonical_when? proper needed) stated).item? item

/-- What is interpreted at a place: the fields, and the names by which a condition is recognised, if it
is. -/
def interpreted (f : Framework) : Place → List String
  | .document => fields
  | .schema _ => LedgerEntry.fields
  | .credDef _ => LedgerEntry.fields
  | .participant _ => Participant.fields
  | .rule _ => Rule.fields
  | .condition i j => if (f.condition? i j).any (·.isRecognized) then Condition.fields else []

/-- Whether a place keeps what it says beside what is interpreted. -/
def keeps (f : Framework) : Place → Bool
  | .rule _ => false
  | .condition i j => !(f.condition? i j).any (·.isRecognized)
  | _ => true

/-- A member that is not interpreted is found at the same place of the document that is written after
reading, with the same value; except beside the fields of a rule, and in a condition that is
recognised, where no such member is written. -/
theorem uninterpreted_kept (v : Json) (f : Framework) (canonical : v.Canonical)
    (read : ofJson v = .ok f) (place : Place) (u value : Json) (key : String)
    (there : place.at? v = some u) (found : u.get? key = some value)
    (foreign : key ∉ f.interpreted place) : ∃ w, place.at? f.toJson = some w ∧
      w.get? key = if f.keeps place then some value else none := by
  cases place with
  | document =>
    cases there
    refine ⟨_, Place.at?_toJson rfl, ?_⟩
    rw [get?_toJson foreign]
    exact (orderless_record .value).get?_extra canonical read found foreign (·.extra)
      fun _ _ _ => rfl
  | schema i =>
    obtain ⟨e, held, own, proper⟩ :=
      item_of_field schemas rfl (fun _ _ => rfl) (fun _ _ => rfl) canonical read there
    refine ⟨_, Place.at?_toJson (by rw [part?, held]; rfl), ?_⟩
    exact LedgerEntry.get?_of_decode proper own found foreign
  | credDef i =>
    obtain ⟨e, held, own, proper⟩ :=
      item_of_field credDefs rfl (fun _ _ => rfl) (fun _ _ => rfl) canonical read there
    refine ⟨_, Place.at?_toJson (by rw [part?, held]; rfl), ?_⟩
    exact LedgerEntry.get?_of_decode proper own found foreign
  | participant i =>
    obtain ⟨p, held, own, proper⟩ :=
      item_of_field participants rfl (fun _ _ => rfl) (fun _ _ => rfl) canonical read there
    refine ⟨_, Place.at?_toJson (by rw [part?, held]; rfl), ?_⟩
    exact Participant.get?_of_decode proper own found foreign
  | rule i =>
    obtain ⟨r, held, own, proper⟩ :=
      item_of_field permissions rfl (fun _ _ => rfl) (fun _ _ => rfl) canonical read there
    refine ⟨_, Place.at?_toJson (by rw [part?, held]; rfl), ?_⟩
    exact Rule.get?_toJson foreign r
  | condition i j =>
    obtain ⟨c, held, own, proper⟩ := condition_of_at? canonical read there
    refine ⟨_, Place.at?_toJson (by rw [part?, held]; rfl), ?_⟩
    simp only [interpreted, keeps, held, Option.any_some] at foreign ⊢
    rw [Condition.get?_of_decode proper own found fun recognized => by simpa [recognized] using foreign]
    cases c.isRecognized <;> rfl

/-- A document with a note beside the fields of its rule, a date in its condition, and a version. -/
def annotated : Json := .object [
  ("participants", .array []),
  ("permissions", .array [.object [("grant", .array [.text "trader"]), ("note", .text "first rule"),
    ("when", .object [("and", .array [.object [("id", .text "B"), ("since", .text "2020")]])])]]),
  ("roles", .array [.text "trader"]), ("schemas", .array []), ("version", .text "1")]

/-- The framework that the annotated document states. -/
def plain : Framework :=
  ⟨[], [], [], ["trader"], [⟨.ofList ["trader"], .all [.identity "B"]⟩],
    .ofList [("version", .text "1")]⟩

theorem canonical_annotated : annotated.Canonical := by
  simp only [annotated, Json.Canonical, Json.ItemsCanonical, Json.MembersCanonical, KeysIncrease]
  decide

theorem ofJson_annotated : ofJson annotated = .ok plain := by decide +kernel

/-- The version of the annotated document is written again, its note and its date are not. -/
theorem uninterpreted_kept_annotated :
    (∃ w, Place.document.at? plain.toJson = some w ∧ w.get? "version" = some (.text "1")) ∧
      (∃ w, (Place.rule 0).at? plain.toJson = some w ∧ w.get? "note" = none) ∧
      ∃ w, (Place.condition 0 0).at? plain.toJson = some w ∧ w.get? "since" = none := by
  have kept := uninterpreted_kept annotated plain canonical_annotated ofJson_annotated
  exact ⟨kept .document _ _ _ rfl rfl (by decide), kept (.rule 0) _ _ _ rfl rfl (by decide),
    kept (.condition 0 0) _ _ _ rfl rfl (by decide)⟩

/-- Not every member that is not interpreted is written again: a rule forgets what stands beside its
fields. -/
theorem rules_forget : ¬ ∀ (v : Json) (f : Framework) (place : Place) (u value : Json)
    (key : String), v.Canonical → ofJson v = .ok f → place.at? v = some u →
      u.get? key = some value → key ∉ f.interpreted place →
        ∃ w, place.at? f.toJson = some w ∧ w.get? key = some value := by
  intro all
  obtain ⟨w, there, kept⟩ := all annotated plain (.rule 0) _ _ "note" canonical_annotated
    ofJson_annotated rfl rfl (by decide)
  cases there
  exact absurd kept (by decide)

end Framework

end TrustMesh
