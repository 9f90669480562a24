import TrustMesh.Proofs.Json.Record

/-!
# Decoders that do not look at the order of members

The canonical form of a value orders the members of its objects and keeps the last of those
with one key. It is canonical (`Json.canonical_canonical`), and it is what the value is read
to as a term (`Json.value_ofJson`).

A decoder is orderless if what it reads from a value it reads from the canonical form of
the value too (`Decode.Orderless`). A record is orderless if its fields set different parts
of it (`Record.Orderless.decode_canonical`).
-/

namespace TrustMesh

open Std

/-! ## Canonical forms -/

namespace Json

theorem canonicalItems_eq_map (items : List Json) : canonicalItems items = items.map canonical := by
  induction items with
  | nil => rfl
  | cons item rest ih => rw [canonicalItems, ih, List.map_cons]

theorem canonicalMembers_eq_map (members : List (String × Json)) :
    canonicalMembers members = members.map fun m => (m.1, m.2.canonical) := by
  induction members with
  | nil => rfl
  | cons member rest ih => rw [canonicalMembers, ih, List.map_cons]

theorem keys_canonicalMembers {members : List (String × Json)} :
    (canonicalMembers members).map Prod.fst = members.map Prod.fst := by
  rw [canonicalMembers_eq_map, List.map_map]
  rfl

mutual

/-- A value is read as a term to its canonical form. -/
theorem value_ofJson : ∀ v : Json, (Term.ofJson v).toJson = v.canonical
  | .null => rfl
  | .bool _ => rfl
  | .number _ => rfl
  | .text _ => rfl
  | .array items => congrArg Json.array (values_ofJson items)
  | .object members => congrArg ofMembers (memberValues_ofJson members)

theorem values_ofJson : ∀ items : List Json,
    Term.itemsToJson (Term.itemsOfJson items) = canonicalItems items
  | [] => rfl
  | item :: rest => congrArg₂ List.cons (value_ofJson item) (values_ofJson rest)

theorem memberValues_ofJson : ∀ members : List (String × Json),
    Term.membersToJson (Term.membersOfJson members) = canonicalMembers members
  | [] => rfl
  | (key, value) :: rest =>
    congrArg₂ (fun v vs => (key, v) :: vs) (value_ofJson value) (memberValues_ofJson rest)

end

theorem canonical_canonical (v : Json) : v.canonical.Canonical :=
  value_ofJson v ▸ Term.canonical_toJson _

/-- A canonical value is its own canonical form. -/
theorem Canonical.eq {v : Json} (canonical : v.Canonical) : v.canonical = v :=
  (value_ofJson v).symm.trans (toJson_ofJson v canonical)

/-- As a term a value and its canonical form have the same value. -/
theorem value_canonical (v : Json) : (Term.ofJson v.canonical).toJson = (Term.ofJson v).toJson := by
  rw [value_ofJson, value_ofJson, v.canonical_canonical.eq]

theorem canonicalMembers_entries {members : OrderedMap String Json}
    (canonical : ∀ m ∈ members.entries, m.2.Canonical) :
    canonicalMembers members.entries = members.entries := by
  rw [canonicalMembers_eq_map]
  refine (List.map_congr_left fun m there => ?_).trans (List.map_id _)
  rw [(canonical m there).eq]
  rfl

end Json

/-! ## Decoders -/

/-- What a decoder reads from a value it reads from the canonical form of the value. -/
def Decode.Orderless {α : Type} (decode : Term → Decoded α) : Prop :=
  ∀ v a, decode (.ofJson v) = .ok a → decode (.ofJson v.canonical) = .ok a

namespace Decode

variable {α : Type} {decode : Term → Decoded α}

theorem orderless_text : Orderless text := by
  intro v a decoded
  cases v with
  | text value => exact decoded
  | _ => cases decoded

theorem Orderless.optional (orderless : Orderless decode) : Orderless (optional decode) := by
  intro v a decoded
  by_cases absent : v = .null
  · subst absent
    exact decoded
  · have filled : Term.ofJson v ≠ .null := by
      cases v with
      | null => exact absurd rfl absent
      | _ => exact nofun
    have filled' : Term.ofJson v.canonical ≠ .null := by
      cases v with
      | null => exact absurd rfl absent
      | _ => exact nofun
    rw [optional_of_ne_null filled] at decoded
    obtain ⟨value, found, rfl⟩ := Except.eq_ok_of_map decoded
    rw [optional_of_ne_null filled', orderless v value found]
    rfl

theorem Orderless.list (orderless : Orderless decode) : Orderless (list decode) := by
  intro v a decoded
  cases v with
  | array items =>
    have each : ∀ (items : List Json) (values : List α),
        (items.map Term.ofJson).mapM decode = .ok values → (items.map fun v => Term.ofJson v.canonical).mapM decode = .ok values := by
      intro items
      induction items with
      | nil => exact fun _ decoded => decoded
      | cons item rest ih =>
        intro values decoded
        obtain ⟨value, others, first, later, rfl⟩ := of_mapM_cons decoded
        rw [List.map_cons, List.mapM_cons, orderless item value first, ih others later]
        rfl
    rw [Term.ofJson, Json.itemsOfJson_eq_map] at decoded
    rw [Json.canonical, Json.canonicalItems_eq_map, Term.ofJson, Json.itemsOfJson_eq_map,
      List.map_map]
    exact each items a decoded
  | _ => cases decoded

/-- A variant is an object of one member, which has only one order. -/
theorem Orderless.variant {names : List String} {content : String → Term → Decoded α}
    {source : Source} (orderless : ∀ name, Orderless (content name)) : Orderless (variant names content source) := by
  intro v a decoded
  have alone : ∃ key value, v = .object [(key, value)] := by
    cases v with
    | text name =>
      cases source <;>
      · simp only [Term.ofJson, Decode.variant] at decoded
        split at decoded <;> cases decoded
    | object members =>
      rcases members with _ | ⟨⟨key, value⟩, _ | ⟨other, rest⟩⟩
      · cases source <;> cases decoded
      · exact ⟨key, value, rfl⟩
      · cases source with
        | text =>
          simp only [Term.ofJson, Term.membersOfJson, Decode.variant] at decoded
          split at decoded
          · split at decoded <;> cases decoded
          · cases decoded
        | _ => cases decoded
    | _ => cases source <;> cases decoded
  obtain ⟨key, value, rfl⟩ := alone
  have same : ∀ v : Json, Decode.variant names content source (.ofJson (.object [(key, v)])) =
      if key ∈ names then content key (.ofJson v)
      else .error (.mismatch (.unknownVariant key names)) := by
    intro v
    cases source with
    | text =>
      rw [Term.ofJson, Term.membersOfJson, Term.membersOfJson, Decode.variant]
      split
      · cases content key (.ofJson v) <;> rfl
      · rfl
    | _ => rfl
  have single : (Json.object [(key, value)]).canonical = .object [(key, value.canonical)] := rfl
  rw [single, same]
  rw [same] at decoded
  split at decoded
  · rename_i known
    rw [if_pos known]
    exact orderless key value a decoded
  · cases decoded

end Decode

/-! ## Records -/

/-- Two fields set different parts of a record: they may be read in either order. -/
def Field.Apart {α : Type} (f : Field α) (source : Source) (g : Field α) : Prop :=
  ∀ s t a b c, f.read source s a = .ok b → g.read source t b = .ok c →
    ∃ d, g.read source t a = .ok d ∧ f.read source s d = .ok c

section Fields

variable {α β γ : Type} {source : Source} {f g : Field α} {decode : Term → Decoded β}
  {decode' : Term → Decoded γ} {set : β → α → α} {set' : γ → α → α}

/-- A field that is set to what an orderless decoder reads may be read from the canonical form. -/
theorem Field.value_of_set (sets : ∀ t a, f.read source t a = (decode t).map (set · a))
    (orderless : Decode.Orderless decode) (v : Json) (a b : α)
    (read : f.read source (.ofJson v) a = .ok b) : f.read source (.ofJson v.canonical) a = .ok b := by
  rw [sets] at read ⊢
  obtain ⟨x, found, same⟩ := Except.eq_ok_of_map read
  rw [orderless v x found]
  exact congrArg Except.ok same

/-- A change of the record that leaves alone what a field sets may be made before or after. -/
theorem Field.aside_of_set (sets : ∀ t a, f.read source t a = (decode t).map (set · a))
    {change : α → α} (commute : ∀ x a, set x (change a) = change (set x a)) (t : Term) (a : α) :
    f.read source t (change a) = (f.read source t a).map change := by
  rw [sets, sets]
  cases decode t with
  | ok x => exact congrArg Except.ok (commute x a)
  | error fault => rfl

theorem Field.apart_of_set (first : ∀ t a, f.read source t a = (decode t).map (set · a))
    (second : ∀ t a, g.read source t a = (decode' t).map (set' · a))
    (commute : ∀ x y a, set' y (set x a) = set x (set' y a)) : f.Apart source g := by
  intro s t a b c read read'
  rw [first] at read
  rw [second] at read'
  obtain ⟨x, found, rfl⟩ := Except.eq_ok_of_map read
  obtain ⟨y, found', rfl⟩ := Except.eq_ok_of_map read'
  refine ⟨set' y a, ?_, ?_⟩
  · rw [second, found']
    rfl
  · rw [first, found, commute]
    rfl

end Fields

namespace Record

variable {α : Type} (r : Record α) (source : Source)

/-- What becomes of a record with a member that it does not know. -/
def keep (key : String) (t : Term) (a : α) : α :=
  match r.collect with
  | some add => add key t a
  | none => a

/-- What becomes of a record when one member is read. -/
def Reads (key : String) (v : Json) (before after : α) : Prop :=
  match r.fields.find? (·.name = key) with
  | some f => f.read source (.ofJson v) before = .ok after
  | none => after = r.keep key (.ofJson v) before

/-- What becomes of a record when members are read one by one. -/
def ReadsAll : List (String × Json) → α → α → Prop
  | [], before, after => after = before
  | (key, v) :: rest, before, after =>
    ∃ between, r.Reads source key v before between ∧ ReadsAll rest between after

/-- The members that are fields. -/
def known (members : List (String × Json)) : List String :=
  (members.map Prod.fst).filter fun key => (r.fields.find? (·.name = key)).isSome

/-- A record keeps the members that it does not know by key, in canonical form. -/
structure KeepsByKey : Prop where
  kept : ∀ key other, key ≠ other → ∀ s t a,
    r.keep key s (r.keep other t a) = r.keep other t (r.keep key s a)
  again : ∀ key s t a, r.keep key s (r.keep key t a) = r.keep key s a
  canonical : ∀ key v, r.keep key (.ofJson v.canonical) = r.keep key (.ofJson v)

/-- A record does not look at the order of its members: its fields set different parts of it, and
what it does not know it keeps by key. -/
structure Orderless : Prop where
  value : ∀ f ∈ r.fields, ∀ v a b, f.read source (.ofJson v) a = .ok b →
    f.read source (.ofJson v.canonical) a = .ok b
  apart : ∀ f ∈ r.fields, ∀ g ∈ r.fields, f.name ≠ g.name → f.Apart source g
  aside : ∀ f ∈ r.fields, ∀ key s t a,
    f.read source t (r.keep key s a) = (f.read source t a).map (r.keep key s)
  keeps : r.KeepsByKey

variable {r} in
/-- A record that files what it does not know in a map keeps it by key. -/
theorem keepsByKey_of_extra (put : OrderedMap String Json → α → α)
    (extra : α → OrderedMap String Json)
    (files : ∀ key t a, r.keep key t a = put ((extra a).insert key t.toJson) a)
    (extra_put : ∀ m a, extra (put m a) = m) (put_put : ∀ m n a, put m (put n a) = put m a) :
    r.KeepsByKey where
  kept key other differ s t a := by
    simp only [files, extra_put, put_put, OrderedMap.insert_comm _ differ.symm]
  again key s t a := by
    simp only [files, extra_put, put_put, OrderedMap.insert_insert]
  canonical key v := funext fun a => by
    simp only [files, Json.value_canonical]

variable {r source} in
/-- A record that skips what it does not know does not look at the order of its members if its fields
set different parts of it. -/
theorem orderless_of_skips (skips : r.collect = none)
    (value : ∀ f ∈ r.fields, ∀ v a b, f.read source (.ofJson v) a = .ok b →
      f.read source (.ofJson v.canonical) a = .ok b)
    (apart : ∀ f ∈ r.fields, ∀ g ∈ r.fields, f.name ≠ g.name → f.Apart source g) :
    r.Orderless source := by
  have keep : ∀ key t, r.keep key t = id := by
    intro key t
    funext a
    rw [Record.keep, skips]
    rfl
  refine ⟨value, apart, fun f mem key s t a => ?_, ?_⟩
  · rw [keep]
    exact (id_map _).symm
  · exact ⟨fun _ _ _ _ _ _ => by simp only [keep], fun _ _ _ _ => by simp only [keep, id],
      fun _ _ => by simp only [keep]⟩

section ReadsAll

variable {r source} {members others : List (String × Json)} {key other : String} {v w : Json}
  {seen read : List String} {a b c : α}

theorem known_cons_of_some {f : Field α} (found : r.fields.find? (·.name = key) = some f) :
    r.known ((key, v) :: members) = key :: r.known members := by
  simp [known, found]

theorem known_cons_of_none (foreign : r.fields.find? (·.name = key) = none) :
    r.known ((key, v) :: members) = r.known members := by
  simp [known, foreign]

/-- Members are read if they are read one by one and no field comes twice. -/
theorem readMembers_iff :
    r.readMembers source seen a (Term.membersOfJson members) = .ok (read, b) ↔
      r.ReadsAll source members a b ∧ (r.known members).Nodup ∧
        (∀ key ∈ r.known members, key ∉ seen) ∧ read = (r.known members).reverse ++ seen := by
  induction members generalizing seen a with
  | nil => simp [Term.membersOfJson, readMembers, ReadsAll, known, eq_comm, and_comm]
  | cons member rest ih =>
    obtain ⟨key, v⟩ := member
    rw [Term.membersOfJson, readMembers]
    cases found : r.fields.find? (·.name = key) with
    | some f =>
      simp only [known_cons_of_some found, ReadsAll, Reads, found]
      by_cases twice : key ∈ seen
      · simp [twice]
      · cases reads : f.read source (.ofJson v) a with
        | error fault => simp [twice]
        | ok between =>
          simp only [if_neg twice, ih, Except.ok.injEq, exists_eq_left', List.nodup_cons,
            List.reverse_cons, List.append_assoc, List.singleton_append, List.mem_cons, not_or,
            forall_eq_or_imp]
          constructor
          · rintro ⟨reads, once, fresh, same⟩
            exact ⟨reads, ⟨fun there => (fresh key there).1 rfl, once⟩,
              ⟨twice, fun other there => (fresh other there).2⟩, same⟩
          · rintro ⟨reads, ⟨absent, once⟩, ⟨-, fresh⟩, same⟩
            exact ⟨reads, once, fun other there => ⟨fun same => absent (same ▸ there),
              fresh other there⟩, same⟩
    | none =>
      simp only [known_cons_of_none found, ReadsAll, Reads, found, keep]
      cases r.collect with
      | some add => simp [Json.readable_ofJson, ih]
      | none => simp [Json.wellFormed_ofJson, ih]

theorem readsAll_append : r.ReadsAll source (members ++ others) a c ↔
    ∃ b, r.ReadsAll source members a b ∧ r.ReadsAll source others b c := by
  induction members generalizing a with
  | nil => simp [ReadsAll]
  | cons member rest ih =>
    simp only [List.cons_append, ReadsAll, ih]
    constructor
    · rintro ⟨between, first, b, later, others⟩
      exact ⟨b, ⟨between, first, later⟩, others⟩
    · rintro ⟨b, ⟨between, first, later⟩, others⟩
      exact ⟨between, first, b, later, others⟩

theorem readsAll_singleton : r.ReadsAll source [(key, v)] a b ↔ r.Reads source key v a b := by
  simp only [ReadsAll]
  constructor
  · rintro ⟨between, reads, rfl⟩
    exact reads
  · exact fun reads => ⟨b, reads, rfl⟩

/-- A member may be read from its canonical form. -/
theorem Orderless.reads_canonical (orderless : r.Orderless source)
    (reads : r.Reads source key v a b) : r.Reads source key v.canonical a b := by
  unfold Reads at *
  cases known : r.fields.find? (·.name = key) with
  | some f =>
    rw [known] at reads
    exact orderless.value f (List.mem_of_find?_eq_some known) v a b reads
  | none =>
    rw [known] at reads
    exact reads.trans (congrFun (orderless.keeps.canonical key v).symm a)

/-- Two members with different keys may be read in either order. -/
theorem Orderless.reads_swap (orderless : r.Orderless source) (differ : key ≠ other)
    (first : r.Reads source key v a b) (second : r.Reads source other w b c) :
    ∃ d, r.Reads source other w a d ∧ r.Reads source key v d c := by
  unfold Reads at *
  cases known : r.fields.find? (·.name = key) with
  | some f =>
    have own : f ∈ r.fields := List.mem_of_find?_eq_some known
    cases known' : r.fields.find? (·.name = other) with
    | some g =>
      have apart : f.name ≠ g.name := by
        have named : f.name = key := by simpa using List.find?_some known
        have named' : g.name = other := by simpa using List.find?_some known'
        rwa [named, named']
      simp only [known, known'] at first second ⊢
      exact orderless.apart f own g (List.mem_of_find?_eq_some known') apart _ _ a b c first second
    | none =>
      simp only [known, known'] at first second ⊢
      refine ⟨_, rfl, ?_⟩
      rw [orderless.aside f own, first, second]
      rfl
  | none =>
    cases known' : r.fields.find? (·.name = other) with
    | some g =>
      simp only [known, known'] at first second ⊢
      rw [first, orderless.aside g (List.mem_of_find?_eq_some known')] at second
      obtain ⟨d, found, same⟩ := Except.eq_ok_of_map second
      exact ⟨d, found, same.symm⟩
    | none =>
      simp only [known, known'] at first second ⊢
      refine ⟨_, rfl, ?_⟩
      rw [second, first, orderless.keeps.kept other key (Ne.symm differ)]

/-- Members with different keys may be read in any order. -/
theorem Orderless.readsAll_perm (orderless : r.Orderless source) (perm : members.Perm others)
    (distinct : (members.map Prod.fst).Nodup) (reads : r.ReadsAll source members a b) :
    r.ReadsAll source others a b := by
  induction perm generalizing a with
  | nil => exact reads
  | cons member perm ih =>
    obtain ⟨between, first, later⟩ := reads
    exact ⟨between, first, ih (List.nodup_cons.1 distinct).2 later⟩
  | swap member other rest =>
    obtain ⟨c, first, d, second, later⟩ := reads
    have differ : other.1 ≠ member.1 := by
      rintro same
      simp [same] at distinct
    obtain ⟨e, second, first⟩ := orderless.reads_swap differ first second
    exact ⟨e, second, d, first, later⟩
  | trans perm _ ih ih' =>
    exact ih' ((perm.map Prod.fst).nodup_iff.1 distinct) (ih distinct reads)

theorem known_append : r.known (members ++ others) = r.known members ++ r.known others := by
  simp [known]

/-- One more member is read after those of a map. What came before under its key was that of no field,
so it was kept, and is replaced. -/
theorem Orderless.readsAll_insert (orderless : r.Orderless source) {m : OrderedMap String Json}
    (before : r.ReadsAll source m.entries a b) (reads : r.Reads source key v b c)
    (foreign : ∀ old, m.get? key = some old → r.fields.find? (·.name = key) = none) :
    r.ReadsAll source (m.insert key v).entries a c := by
  have distinct (entries : List (String × Json)) (perm : (m.insert key v).entries.Perm entries) :
      (entries.map Prod.fst).Nodup := (perm.map _).nodup_iff.1 (m.insert key v).nodup_keys
  cases found : m.get? key with
  | none =>
    have perm := OrderedMap.entries_insert_perm_of_new found v
    refine orderless.readsAll_perm perm.symm (distinct _ perm) ?_
    exact readsAll_append.2 ⟨b, before, readsAll_singleton.2 reads⟩
  | some old =>
    have perm := m.entries_insert_perm key v
    refine orderless.readsAll_perm perm.symm (distinct _ perm) ?_
    obtain ⟨start, others, replaced⟩ := readsAll_append.1
      (orderless.readsAll_perm (OrderedMap.entries_perm_of_get? found) m.nodup_keys before)
    refine readsAll_append.2 ⟨start, others, readsAll_singleton.2 ?_⟩
    have replaced := readsAll_singleton.1 replaced
    simp only [Reads, foreign old found] at reads replaced ⊢
    rw [reads, replaced, orderless.keeps.again]

/-- Members may be read in canonical form: in key order, the last of those with one key. -/
theorem Orderless.readsAll_canonical (orderless : r.Orderless source)
    (once : (r.known members).Nodup) (reads : r.ReadsAll source members a b) :
    r.ReadsAll source (OrderedMap.ofList (Json.canonicalMembers members)).entries a b := by
  induction members using List.reverseRecOn generalizing b with
  | nil => exact reads
  | append_singleton members member ih =>
    obtain ⟨key, v⟩ := member
    obtain ⟨between, first, last⟩ := readsAll_append.1 reads
    rw [known_append, List.nodup_append] at once
    have step : OrderedMap.ofList (Json.canonicalMembers (members ++ [(key, v)])) =
        (OrderedMap.ofList (Json.canonicalMembers members)).insert key v.canonical := by
      rw [Json.canonicalMembers_eq_map, List.map_append, ← Json.canonicalMembers_eq_map]
      exact List.foldl_concat ..
    rw [step]
    refine orderless.readsAll_insert (ih once.1 first)
      (orderless.reads_canonical (readsAll_singleton.1 last)) fun old found => ?_
    refine Option.not_isSome_iff_eq_none.1 fun field => ?_
    have late : key ∈ r.known [(key, v)] := List.mem_filter.2 ⟨by simp, field⟩
    have early : key ∈ r.known members := List.mem_filter.2 ⟨Json.keys_canonicalMembers ▸
      OrderedMap.mem_keys_ofList.1 (OrderedMap.isSome_get?_iff.1 (found ▸ rfl)), field⟩
    exact once.2.2 key early key late rfl

/-- The fields that are missing depend on which were read, not on the order. -/
theorem missing?_congr {seen read : List String} (same : ∀ key, key ∈ seen ↔ key ∈ read) :
    r.missing? seen = r.missing? read := by
  simp only [missing?, same]

/-- The canonical form of an object has the same members that are fields. -/
theorem mem_known_canonical :
    key ∈ r.known (OrderedMap.ofList (Json.canonicalMembers members)).entries ↔
      key ∈ r.known members := by
  have keys : key ∈ (OrderedMap.ofList (Json.canonicalMembers members)).keys ↔
      key ∈ (Json.canonicalMembers members).map Prod.fst := OrderedMap.mem_keys_ofList
  rw [Json.keys_canonicalMembers, OrderedMap.keys] at keys
  rw [known, known, List.mem_filter, List.mem_filter, keys]

theorem readItems_canonical (orderless : r.Orderless source) {items : List Json}
    {rest : List (Field α)} {length index : Nat} (known : ∀ f ∈ rest, f ∈ r.fields)
    (decoded : r.readItems source length index rest a (items.map .ofJson) = .ok b) :
    r.readItems source length index rest a (items.map fun v => .ofJson v.canonical) = .ok b := by
  induction rest generalizing items index a with
  | nil =>
    cases items with
    | nil => exact decoded
    | cons item others => exact decoded
  | cons f rest ih =>
    obtain ⟨own, known⟩ := List.forall_mem_cons.1 known
    cases items with
    | nil => exact decoded
    | cons item others =>
      rw [List.map_cons, readItems] at decoded ⊢
      split at decoded
      · rename_i between found
        rw [orderless.value f own item a between found]
        exact ih known decoded
      · cases decoded

end ReadsAll

/-- A record that does not look at the order of members is read from the canonical form of what it is
read from. -/
theorem Orderless.decode_canonical {r : Record α} {source : Source}
    (orderless : r.Orderless source) : Decode.Orderless (r.decode source) := by
  intro v a decoded
  cases v with
  | object members =>
    rw [Term.ofJson, decode, decodeMembers] at decoded
    split at decoded
    · cases decoded
    · rename_i seen record read
      split at decoded
      · cases decoded
      · rename_i complete
        cases decoded
        obtain ⟨reads, once, -, same⟩ := readMembers_iff.1 read
        have whole := readMembers_iff.2 ⟨orderless.readsAll_canonical once reads,
          List.Nodup.filter _ (OrderedMap.nodup_keys _), fun _ _ => List.not_mem_nil, rfl⟩
        refine decode_of_readMembers _ whole (Eq.trans (missing?_congr fun key => ?_) complete)
        rw [same, List.mem_append, List.mem_append, List.mem_reverse, List.mem_reverse,
          mem_known_canonical]
  | array items =>
    rw [Term.ofJson, decode] at decoded
    split at decoded
    · cases decoded
    · rename_i plain
      rw [Json.itemsOfJson_eq_map] at decoded
      have read := readItems_canonical orderless (fun _ there => there) decoded
      rw [Json.canonical, Json.canonicalItems_eq_map, Term.ofJson, decode, if_neg plain,
        Json.itemsOfJson_eq_map, List.map_map, List.length_map]
      rwa [List.length_map] at read
  | _ => cases decoded

end Record

end TrustMesh
