import TrustMesh.Json.Record
import TrustMesh.Proofs.Json.Fidelity

/-!
# Reading records

What holds of a record before any field is read, and is kept by every field and by every
member that is collected, holds of what is decoded (`Record.decode_induction`). Together
with each part comes the fact that it nests less deep than the whole. For the way back,
members that a record does not know are all collected (`Record.readMembers_collect`).

A record may be read for a part of what it holds: if each field sets its share of the part,
then the part is read (`Record.PartOf.decode`).
-/

namespace TrustMesh

theorem Except.eq_ok_of_map {ε α β : Type} {f : α → β} {e : Except ε α} {b : β}
    (mapped : e.map f = .ok b) : ∃ a, e = .ok a ∧ f a = b := by
  cases e with
  | ok a => exact ⟨a, rfl, Except.ok.inj mapped⟩
  | error fault => cases mapped

/-- A list is decoded item by item. -/
theorem Decode.list_map {α β : Type} {decode : Term → Decoded β} {write : α → Term} {read : α → β}
    {items : List α} (each : ∀ a ∈ items, decode (write a) = .ok (read a)) :
    Decode.list decode (.array (items.map write)) = .ok (items.map read) := by
  rw [Decode.list]
  induction items with
  | nil => rfl
  | cons a rest ih =>
    rw [List.map_cons, List.mapM_cons, each a (by simp),
      ih fun b mem => each b (List.mem_cons_of_mem _ mem)]
    rfl

theorem Decode.optional_text (s : String) :
    Decode.optional Decode.text (.text s) = .ok (some s) := rfl

theorem Decode.optional_of_ne_null {α : Type} {decode : Term → Decoded α} {t : Term}
    (filled : t ≠ .null) : Decode.optional decode t = (decode t).map some := by
  cases t with
  | null => exact absurd rfl filled
  | _ => rfl

/-- A list is decoded if its first item and the list of the others are. -/
theorem Decode.of_mapM_cons {α : Type} {decode : Term → Decoded α} {item : Term} {rest : List Term}
    {values : List α} (decoded : (item :: rest).mapM decode = .ok values) :
    ∃ a others, decode item = .ok a ∧ rest.mapM decode = .ok others ∧ values = a :: others := by
  rw [List.mapM_cons] at decoded
  cases first : decode item with
  | error fault =>
    rw [first] at decoded
    cases decoded
  | ok a =>
    cases later : rest.mapM decode with
    | error fault =>
      rw [first, later] at decoded
      cases decoded
    | ok others =>
      rw [first, later] at decoded
      cases decoded
      exact ⟨a, others, rfl, rfl, rfl⟩

/-- The items of a list that is decoded are decoded from items that nest less deep. -/
theorem Decode.of_list {α : Type} {decode : Term → Decoded α} {term : Term} {values : List α}
    (decoded : Decode.list decode term = .ok values) :
    ∀ a ∈ values, ∃ item, item.depth < term.depth ∧ decode item = .ok a := by
  cases term with
  | array items =>
    have general : ∀ (items : List Term) (values : List α), items.mapM decode = .ok values →
        ∀ a ∈ values, ∃ item ∈ items, decode item = .ok a := by
      intro items
      induction items with
      | nil =>
        intro values decoded
        cases decoded
        simp
      | cons item rest ih =>
        intro values decoded
        obtain ⟨a, others, first, later, rfl⟩ := of_mapM_cons decoded
        refine List.forall_mem_cons.2 ⟨⟨item, by simp, first⟩, fun b there => ?_⟩
        obtain ⟨other, mem, found⟩ := ih others later b there
        exact ⟨other, List.mem_cons_of_mem _ mem, found⟩
    intro a there
    obtain ⟨item, mem, found⟩ := general items values decoded a there
    have within := Term.depth_le_itemsDepth mem
    exact ⟨item, by rw [Term.depth]; omega, found⟩
  | _ => cases decoded

/-- The content of a variant that is decoded nests less deep than the variant. -/
theorem Decode.of_variant {α : Type} {names : List String} {content : String → Term → Decoded α}
    {source : Source} {term : Term} {a : α}
    (decoded : Decode.variant names content source term = .ok a) :
    ∃ name ∈ names, ∃ value, value.depth < term.depth ∧ content name value = .ok a := by
  unfold Decode.variant at decoded
  split at decoded
  · rename_i key value rest
    have within : value.depth < (Term.object ((key, value) :: rest)).depth := by
      rw [Term.depth, Term.membersDepth]
      omega
    split at decoded
    · rename_i name
      split at decoded
      · rename_i mem
        split at decoded
        · rename_i result found
          split at decoded
          · cases decoded
            exact ⟨name, mem, value, within, found⟩
          · cases decoded
        · cases decoded
      · cases decoded
    · cases decoded
  · split at decoded <;> cases decoded
  · cases decoded
  · rename_i name value _
    split at decoded
    · rename_i mem
      refine ⟨name, mem, value, ?_, decoded⟩
      rw [Term.depth, Term.membersDepth]
      omega
    · cases decoded
  · cases decoded
  · split at decoded <;> cases decoded
  · cases decoded

namespace Record

variable {α : Type} {r : Record α} {source : Source} {term : Term} {P : α → Prop}

section Induction

variable (field : ∀ f ∈ r.fields, ∀ (t : Term) (before after : α), t.depth < term.depth → P before →
    f.read source t before = .ok after → P after)
  (collect : ∀ add, r.collect = some add → ∀ (key : String) (t : Term) (before : α),
    key ∉ r.fields.map Field.name → t.depth < term.depth → P before → P (add key t before))

include field collect in
/-- What every known field and every member that is collected keeps, the members of an object keep. -/
theorem readMembers_induction {members : List (Term × Term)} {seen read : List String}
    {before after : α} (within : ∀ m ∈ members, m.2.depth < term.depth) (holds : P before)
    (decoded : r.readMembers source seen before members = .ok (read, after)) : P after := by
  induction members generalizing seen before with
  | nil =>
    cases decoded
    exact holds
  | cons member rest ih =>
    obtain ⟨key, value⟩ := member
    cases key with
    | text key =>
      obtain ⟨own, within⟩ := List.forall_mem_cons.1 within
      rw [readMembers] at decoded
      split at decoded
      · rename_i f known
        split at decoded
        · cases decoded
        · split at decoded
          · rename_i between found
            have kept := field f (List.mem_of_find?_eq_some known) value _ _ own holds found
            exact ih within kept decoded
          · cases decoded
      · rename_i unknown
        have foreign : key ∉ r.fields.map Field.name := by
          rintro there
          obtain ⟨f, mem, same⟩ := List.mem_map.1 there
          have absent := List.find?_eq_none.1 unknown f mem
          rw [decide_eq_true_eq] at absent
          exact absent same
        split at decoded
        · rename_i add collects
          split at decoded
          · exact ih within (collect add collects key value _ foreign own holds) decoded
          · cases decoded
        · split at decoded
          · exact ih within holds decoded
          · cases decoded
    | _ => cases decoded

include field in
/-- What every field keeps, the items of an array keep. -/
theorem readItems_induction {items : List Term} {fields : List (Field α)} {length index : Nat}
    {before after : α} (known : ∀ f ∈ fields, f ∈ r.fields)
    (within : ∀ t ∈ items, t.depth < term.depth) (holds : P before)
    (decoded : r.readItems source length index fields before items = .ok after) : P after := by
  induction fields generalizing items index before with
  | nil =>
    cases items with
    | nil =>
      cases decoded
      exact holds
    | cons item rest =>
      rw [readItems] at decoded
      split at decoded
      · cases decoded
      · cases decoded
        exact holds
  | cons f fields ih =>
    obtain ⟨own, known⟩ := List.forall_mem_cons.1 known
    cases items with
    | nil =>
      rw [readItems] at decoded
      split at decoded
      · exact ih known within holds decoded
      · cases decoded
    | cons item rest =>
      obtain ⟨shallow, within⟩ := List.forall_mem_cons.1 within
      rw [readItems] at decoded
      split at decoded
      · rename_i between found
        exact ih known within (field f own item _ _ shallow holds found) decoded
      · cases decoded

include field collect in
/-- What holds of a record before any field is read, and is kept by every field and by every member
that is collected, holds of what is decoded. -/
theorem decode_induction (start : P r.start) {a : α} (decoded : r.decode source term = .ok a) :
    P a := by
  unfold decode at decoded
  split at decoded
  · rename_i members
    unfold decodeMembers at decoded
    split at decoded
    · cases decoded
    · rename_i seen record read
      split at decoded
      · cases decoded
      · cases decoded
        refine readMembers_induction field collect (fun m there => ?_) start read
        have within := Term.depth_le_membersDepth there
        rw [Term.depth]
        omega
  · rename_i items
    split at decoded
    · cases decoded
    · refine readItems_induction field (fun _ there => there) (fun t there => ?_) start decoded
      have within := Term.depth_le_itemsDepth there
      rw [Term.depth]
      omega
  · cases decoded

end Induction

/-- A member of a field that was not read yet is read, and then the others. -/
theorem readMembers_known {f : Field α} {key : String} {seen : List String} {value : Term}
    {before between : α} (known : r.fields.find? (·.name = key) = some f) (fresh : key ∉ seen)
    (read : f.read source value before = .ok between) (rest : List (Term × Term)) :
    r.readMembers source seen before ((.text key, value) :: rest) =
      r.readMembers source (key :: seen) between rest := by
  rw [readMembers, known]
  simp only [if_neg fresh, read]

/-- A record is decoded from an object whose members were read and missed no field. -/
theorem decode_of_readMembers {members : List (Term × Term)} (seen : List String) {a : α}
    (read : r.readMembers source [] r.start members = .ok (seen, a))
    (complete : r.missing? seen = none) : r.decode source (.object members) = .ok a := by
  simp only [decode, decodeMembers, read, complete]

/-- Members that a record does not know are collected. -/
theorem readMembers_collect {add : String → Term → α → α} (collects : r.collect = some add)
    {members : List (String × Json)}
    (foreign : ∀ m ∈ members, r.fields.find? (·.name = m.1) = none) (seen : List String)
    (before : α) :
    r.readMembers source seen before (Term.membersOfJson members) =
      .ok (seen, members.foldl (fun a m => add m.1 (.ofJson m.2) a) before) := by
  induction members generalizing before with
  | nil => rfl
  | cons member rest ih =>
    obtain ⟨key, value⟩ := member
    obtain ⟨unknown, foreign⟩ := List.forall_mem_cons.1 foreign
    rw [Term.membersOfJson, readMembers, unknown]
    simp only [collects, Json.readable_ofJson, if_true]
    exact ih foreign _

end Record

/-! ## Parts of what is read -/

/-- A list is read for a part of each item. -/
theorem Decode.list_part {α β : Type} {decode : Term → Decoded α} {decode' : Term → Decoded β}
    {part : α → β} (each : ∀ t, decode' t = (decode t).map part) (t : Term) :
    Decode.list decode' t = (Decode.list decode t).map (List.map part) := by
  cases t with
  | array items =>
    rw [Decode.list, Decode.list]
    induction items with
    | nil => rfl
    | cons item rest ih =>
      rw [List.mapM_cons, List.mapM_cons, each, ih]
      cases decode item with
      | error fault => rfl
      | ok a => cases rest.mapM decode <;> rfl
  | _ => rfl

section Parts

variable {α β : Type} {source : Source} {part : α → β}

/-- A field of a record and the field of the same name that sets its share of a part. -/
structure Field.SetsPart (source : Source) (part : α → β) (f : Field α) (g : Field β) : Prop where
  name : g.name = f.name
  optional : g.optional = f.optional
  read : ∀ t a, g.read source t (part a) = (f.read source t a).map part

variable {γ δ : Type} {decode : Source → Term → Decoded γ} {decode' : Source → Term → Decoded δ}
  {share : γ → δ} {set : γ → α → α} {set' : δ → β → β}

theorem Field.read_part (decodes : ∀ t, decode' source t = (decode source t).map share)
    (sets : ∀ x a, set' (share x) (part a) = part (set x a)) (t : Term) (a : α) :
    (decode' source t).map (set' · (part a)) = ((decode source t).map (set · a)).map part := by
  rw [decodes]
  cases decode source t with
  | error fault => rfl
  | ok x => exact congrArg Except.ok (sets x a)

theorem Field.SetsPart.required {name : String}
    (decodes : ∀ t, decode' source t = (decode source t).map share)
    (sets : ∀ x a, set' (share x) (part a) = part (set x a)) :
    SetsPart source part (.required name decode set) (.required name decode' set') :=
  ⟨rfl, rfl, Field.read_part decodes sets⟩

theorem Field.SetsPart.withDefault {name : String}
    (decodes : ∀ t, decode' source t = (decode source t).map share)
    (sets : ∀ x a, set' (share x) (part a) = part (set x a)) :
    SetsPart source part (.withDefault name decode set) (.withDefault name decode' set') :=
  ⟨rfl, rfl, Field.read_part decodes sets⟩

end Parts

namespace Record

variable {α β : Type} {r : Record α} {s : Record β} {source : Source} {part : α → β}

theorem find?_setsPart {fields : List (Field α)} {others : List (Field β)}
    (sets : List.Forall₂ (Field.SetsPart source part) fields others) {p : Field α → Bool}
    {q : Field β → Bool} (same : ∀ f g, Field.SetsPart source part f g → p f = q g) :
    (fields.find? p = none ∧ others.find? q = none) ∨
      ∃ f g, fields.find? p = some f ∧ others.find? q = some g ∧ Field.SetsPart source part f g := by
  induction sets with
  | nil => exact .inl ⟨rfl, rfl⟩
  | @cons f g fields others first rest ih =>
    rw [List.find?_cons, List.find?_cons, same f g first]
    cases q g with
    | true => exact .inr ⟨f, g, rfl, rfl, first⟩
    | false => exact ih

/-- A record that holds a part of what another one holds: it has the same name and the same fields, and
each sets its share of the part. What neither of the two knows is skipped. -/
structure PartOf (s : Record β) (source : Source) (part : α → β) (r : Record α) : Prop where
  name : s.name = r.name
  fields : List.Forall₂ (Field.SetsPart source part) r.fields s.fields
  start : s.start = part r.start
  skips : r.collect = none
  skips' : s.collect = none

theorem PartOf.missing? (holds : s.PartOf source part r) (seen : List String) :
    s.missing? seen = r.missing? seen := by
  rw [Record.missing?, Record.missing?]
  rcases find?_setsPart (p := fun f => !f.optional && f.name ∉ seen)
      (q := fun g => !g.optional && g.name ∉ seen) holds.fields
      (fun f g sets => by rw [sets.name, sets.optional]) with
    ⟨none, none'⟩ | ⟨f, g, found, found', sets⟩
  · rw [none, none']
    rfl
  · rw [found, found']
    exact congrArg some sets.name

theorem PartOf.readMembers (holds : s.PartOf source part r) (members : List (Term × Term))
    (seen : List String) (a : α) : s.readMembers source seen (part a) members =
      (r.readMembers source seen a members).map fun read => (read.1, part read.2) := by
  induction members generalizing seen a with
  | nil => rfl
  | cons member rest ih =>
    obtain ⟨key, value⟩ := member
    cases key with
    | text key =>
      rw [Record.readMembers, Record.readMembers]
      rcases find?_setsPart (p := fun f => f.name = key) (q := fun g => g.name = key) holds.fields
          (fun f g sets => by rw [sets.name]) with
        ⟨none, none'⟩ | ⟨f, g, found, found', sets⟩
      · rw [none, none']
        simp only [holds.skips, holds.skips']
        split
        · exact ih seen a
        · rfl
      · rw [found, found']
        simp only [sets.read]
        split
        · rfl
        · cases f.read source value a with
          | error fault => rfl
          | ok between => exact ih (key :: seen) between
    | _ => rfl

theorem PartOf.readItems (holds : s.PartOf source part r) {fields : List (Field α)}
    {others : List (Field β)} (sets : List.Forall₂ (Field.SetsPart source part) fields others)
    (items : List Term) (length index : Nat) (a : α) :
    s.readItems source length index others (part a) items =
      (r.readItems source length index fields a items).map part := by
  have count : s.fields.length = r.fields.length := holds.fields.length_eq.symm
  induction sets generalizing items index a with
  | nil =>
    cases items with
    | nil => rfl
    | cons item rest =>
      have long : s.tooLong? source length = r.tooLong? source length := by
        cases source <;> simp [tooLong?, count]
      rw [Record.readItems, Record.readItems, long]
      cases r.tooLong? source length <;> rfl
  | cons first rest ih =>
    cases items with
    | nil =>
      rw [Record.readItems, Record.readItems, first.optional, holds.name, count]
      split
      · exact ih [] (index + 1) a
      · rfl
    | cons item items =>
      rw [Record.readItems, Record.readItems, first.read]
      cases Field.read _ source item a with
      | error fault => rfl
      | ok between => exact ih items (index + 1) between

/-- A record may be read for a part of what it holds. -/
theorem PartOf.decode (holds : s.PartOf source part r) (t : Term) :
    s.decode source t = (r.decode source t).map part := by
  cases t with
  | object members =>
    rw [Record.decode, Record.decode, decodeMembers, decodeMembers, holds.start, holds.readMembers]
    cases r.readMembers source [] r.start members with
    | error fault => rfl
    | ok read =>
      simp only [Except.map, holds.missing?]
      cases r.missing? read.1 <;> rfl
  | array items =>
    rw [Record.decode, Record.decode, holds.skips, holds.skips', holds.start]
    exact holds.readItems holds.fields items items.length 0 r.start
  | _ => exact congrArg (fun name => Except.error (Term.refuse _ (.record name))) holds.name

end Record

end TrustMesh
