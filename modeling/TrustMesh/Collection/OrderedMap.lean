/-!
# Ordered finite maps

A map is the list of its entries in strictly increasing key order. The order is
part of the type, so two maps that answer every look-up alike are equal
(`OrderedMap.ext_get?`), and walking a map visits its keys in order.

Every operation is described by what it does to `get?`.
-/

namespace TrustMesh

open Std

variable {κ α : Type} [Ord κ]

/-- Entries stand in strictly increasing key order. -/
def KeysIncrease (entries : List (κ × α)) : Prop :=
  entries.Pairwise fun a b => compare a.1 b.1 = .lt

/-- A finite map from `κ` to `α`, listed in key order. -/
structure OrderedMap (κ α : Type) [Ord κ] where
  entries : List (κ × α)
  increasing : KeysIncrease entries

namespace OrderedMap

@[ext] theorem ext_entries {m n : OrderedMap κ α} (same : m.entries = n.entries) : m = n := by
  cases m; cases n; cases same; rfl

instance [DecidableEq κ] [DecidableEq α] : DecidableEq (OrderedMap κ α) := fun m n =>
  decidable_of_iff (m.entries = n.entries) ⟨ext_entries, fun h => h ▸ rfl⟩

/-- The map without entries. -/
def empty : OrderedMap κ α := ⟨[], .nil⟩

instance : EmptyCollection (OrderedMap κ α) := ⟨empty⟩
instance : Inhabited (OrderedMap κ α) := ⟨empty⟩

/-- Look up a key in a list of entries. -/
def lookup (key : κ) : List (κ × α) → Option α
  | [] => none
  | (k, a) :: rest => if compare key k = .eq then some a else lookup key rest

/-- The value stored under `key`. -/
def get? (m : OrderedMap κ α) (key : κ) : Option α := lookup key m.entries

/-- Whether something is stored under `key`. -/
def contains (m : OrderedMap κ α) (key : κ) : Bool := (m.get? key).isSome

/-- Number of entries. -/
def size (m : OrderedMap κ α) : Nat := m.entries.length

/-- Keys in increasing order. -/
def keys (m : OrderedMap κ α) : List κ := m.entries.map Prod.fst

/-- Values in the order of their keys. -/
def values (m : OrderedMap κ α) : List α := m.entries.map Prod.snd

/-- Put `change old` under `key`, where `old` is what the entries held there; all other entries
stay. -/
def alterEntries (key : κ) (change : Option α → α) : List (κ × α) → List (κ × α)
  | [] => [(key, change none)]
  | (k, a) :: rest =>
    match compare key k with
    | .lt => (key, change none) :: (k, a) :: rest
    | .eq => (k, change (some a)) :: rest
    | .gt => (k, a) :: alterEntries key change rest

/-- A key of the altered entries is the key that was put or was there before. -/
theorem mem_keys_alterEntries {key k : κ} {change : Option α → α} {entries : List (κ × α)}
    (member : k ∈ (alterEntries key change entries).map Prod.fst) :
    k = key ∨ k ∈ entries.map Prod.fst := by
  induction entries with
  | nil => simpa [alterEntries] using member
  | cons head rest ih =>
    obtain ⟨k', a⟩ := head
    simp only [alterEntries] at member
    split at member
    · simpa using member
    · exact .inr (by simpa using member)
    · simp only [List.map_cons, List.mem_cons] at member ⊢
      rcases member with rfl | member
      · exact .inr (.inl rfl)
      · rcases ih member with rfl | there
        · exact .inl rfl
        · exact .inr (.inr there)

section Lawful

variable [TransOrd κ]

theorem keysIncrease_alterEntries (key : κ) (change : Option α → α) {entries : List (κ × α)}
    (increasing : KeysIncrease entries) : KeysIncrease (alterEntries key change entries) := by
  induction entries with
  | nil => simp [alterEntries, KeysIncrease]
  | cons head rest ih =>
    obtain ⟨k, a⟩ := head
    obtain ⟨below, tail⟩ := List.pairwise_cons.1 increasing
    simp only [alterEntries]
    split
    · rename_i less
      refine List.pairwise_cons.2 ⟨fun entry member => ?_, increasing⟩
      rcases List.mem_cons.1 member with rfl | member
      · exact less
      · exact TransCmp.lt_trans less (below entry member)
    · exact List.pairwise_cons.2 ⟨below, tail⟩
    · rename_i more
      refine List.pairwise_cons.2 ⟨fun entry member => ?_, ih tail⟩
      have : entry.1 ∈ (alterEntries key change rest).map Prod.fst := List.mem_map_of_mem member
      rcases mem_keys_alterEntries this with same | there
      · rw [same]; exact OrientedCmp.lt_of_gt more
      · obtain ⟨other, inRest, sameKey⟩ := List.mem_map.1 there
        rw [← sameKey]; exact below other inRest

/-- Put `change old` under `key`, where `old` is what was stored there. -/
def alter (m : OrderedMap κ α) (key : κ) (change : Option α → α) : OrderedMap κ α :=
  ⟨alterEntries key change m.entries, keysIncrease_alterEntries key change m.increasing⟩

/-- Store `value` under `key`, replacing what was there. -/
def insert (m : OrderedMap κ α) (key : κ) (value : α) : OrderedMap κ α :=
  m.alter key fun _ => value

/-- Store `value` under `key` unless something is stored there. -/
def insertNew (m : OrderedMap κ α) (key : κ) (value : α) : OrderedMap κ α :=
  m.alter key fun old => old.getD value

/-- The map of a list of entries; of entries with one key the last is kept. -/
def ofList (entries : List (κ × α)) : OrderedMap κ α :=
  entries.foldl (fun m entry => m.insert entry.1 entry.2) empty

/-- Remove what is stored under `key`. -/
def erase (m : OrderedMap κ α) (key : κ) : OrderedMap κ α :=
  ⟨m.entries.filter fun entry => compare key entry.1 != .eq,
    m.increasing.sublist List.filter_sublist⟩

/-- Add every entry; where the map holds a value already, `combine old new` takes its place. -/
def alterAll (combine : α → α → α) (m : OrderedMap κ α) (entries : List (κ × α)) :
    OrderedMap κ α :=
  entries.foldl (fun m entry => m.alter entry.1 fun
    | some old => combine old entry.2
    | none => entry.2) m

/-- The entries of both maps; under a key of both stands the combination of the two values. -/
def mergeWith (combine : α → α → α) (m n : OrderedMap κ α) : OrderedMap κ α :=
  m.alterAll combine n.entries

end Lawful

/-- Apply `f` to every value. -/
def mapValues {β : Type} (f : α → β) (m : OrderedMap κ α) : OrderedMap κ β :=
  ⟨m.entries.map fun entry => (entry.1, f entry.2), by
    unfold KeysIncrease; rw [List.pairwise_map]; exact m.increasing⟩

/-! ## What the operations do to look-ups -/

@[simp] theorem get?_empty (key : κ) : (empty : OrderedMap κ α).get? key = none := rfl

theorem lookup_mem {key : κ} {a : α} {entries : List (κ × α)}
    (found : lookup key entries = some a) : ∃ k, compare key k = .eq ∧ (k, a) ∈ entries := by
  induction entries with
  | nil => simp [lookup] at found
  | cons head rest ih =>
    obtain ⟨k, b⟩ := head
    simp only [lookup] at found
    split at found
    · rename_i same
      cases found
      exact ⟨k, same, by simp⟩
    · obtain ⟨k', same, member⟩ := ih found
      exact ⟨k', same, List.mem_cons_of_mem _ member⟩

/-- A key below every entry is not found. -/
theorem lookup_eq_none {key : κ} {entries : List (κ × α)}
    (below : ∀ entry ∈ entries, compare key entry.1 = .lt) : lookup key entries = none := by
  induction entries with
  | nil => rfl
  | cons head rest ih =>
    have first := below head (by simp)
    simp only [lookup, first]
    exact ih fun entry member => below entry (List.mem_cons_of_mem _ member)

section Lawful

variable [LawfulEqOrd κ]

theorem get?_eq_some_iff {m : OrderedMap κ α} {key : κ} {a : α} :
    m.get? key = some a ↔ (key, a) ∈ m.entries := by
  constructor
  · intro found
    obtain ⟨k, same, member⟩ := lookup_mem found
    rw [LawfulEqCmp.eq_of_compare same]; exact member
  · obtain ⟨entries, increasing⟩ := m
    simp only [get?]
    intro member
    induction entries with
    | nil => cases member
    | cons head rest ih =>
      obtain ⟨below, tail⟩ := List.pairwise_cons.1 increasing
      rcases List.mem_cons.1 member with rfl | member
      · simp [lookup]
      · have differ : compare head.1 key = .lt := below _ member
        have : compare key head.1 ≠ .eq := by
          intro same
          rw [LawfulEqCmp.eq_of_compare same] at differ
          simp at differ
        simp only [lookup, this, if_false]
        exact ih tail member

variable [TransOrd κ] [DecidableEq κ]

theorem lookup_alterEntries (key probe : κ) (change : Option α → α)
    {entries : List (κ × α)} (increasing : KeysIncrease entries) :
    lookup probe (alterEntries key change entries) =
      if probe = key then some (change (lookup key entries)) else lookup probe entries := by
  induction entries with
  | nil =>
    by_cases same : probe = key
    · simp [alterEntries, lookup, same]
    · simp [alterEntries, lookup, same]
  | cons head rest ih =>
    obtain ⟨k, a⟩ := head
    obtain ⟨below, tail⟩ := List.pairwise_cons.1 increasing
    simp only [alterEntries]
    split
    · rename_i less
      have absent : lookup key ((k, a) :: rest) = none := by
        apply lookup_eq_none
        intro entry member
        rcases List.mem_cons.1 member with rfl | member
        · exact less
        · exact TransCmp.lt_trans less (below entry member)
      by_cases same : probe = key
      · subst same; rw [absent]; simp [lookup]
      · simp [lookup, same]
    · rename_i equal
      have : key = k := LawfulEqCmp.eq_of_compare equal
      subst this
      by_cases same : probe = key
      · simp [lookup, same]
      · simp [lookup, same]
    · rename_i more
      have differ : key ≠ k := by
        intro same; subst same; simp at more
      by_cases here : probe = k
      · subst here
        have : probe ≠ key := fun h => differ h.symm
        simp [lookup, this]
      · by_cases same : probe = key
        · subst same
          simpa [lookup, here] using ih tail
        · simpa [lookup, here, same] using ih tail

@[simp] theorem get?_alter (m : OrderedMap κ α) (key probe : κ)
    (change : Option α → α) :
    (m.alter key change).get? probe =
      if probe = key then some (change (m.get? key)) else m.get? probe :=
  lookup_alterEntries key probe change m.increasing

@[simp] theorem get?_insert (m : OrderedMap κ α) (key probe : κ) (value : α) :
    (m.insert key value).get? probe = if probe = key then some value else m.get? probe := by
  simp [insert]

@[simp] theorem get?_insertNew (m : OrderedMap κ α) (key probe : κ) (value : α) :
    (m.insertNew key value).get? probe =
      if probe = key then some ((m.get? key).getD value) else m.get? probe := by
  simp [insertNew]

theorem get?_alterAll (combine : α → α → α) (m : OrderedMap κ α) {entries : List (κ × α)}
    (increasing : KeysIncrease entries) (probe : κ) :
    (m.alterAll combine entries).get? probe =
      match m.get? probe, lookup probe entries with
      | some old, some new => some (combine old new)
      | some old, none => some old
      | none, found => found := by
  induction entries generalizing m with
  | nil => cases h : m.get? probe <;> simp [alterAll, lookup, h]
  | cons head rest ih =>
    obtain ⟨k, b⟩ := head
    obtain ⟨below, tail⟩ := List.pairwise_cons.1 increasing
    rw [show m.alterAll combine ((k, b) :: rest) = (m.alter k fun
      | some old => combine old b
      | none => b).alterAll combine rest from rfl, ih _ tail]
    by_cases same : probe = k
    · subst same
      have absent : lookup probe rest = none := lookup_eq_none below
      cases h : m.get? probe <;> simp [lookup, absent, h]
    · simp [lookup, same]

/-- What stands under a key of a merged map. -/
@[simp] theorem get?_mergeWith (combine : α → α → α) (m n : OrderedMap κ α) (probe : κ) :
    (m.mergeWith combine n).get? probe =
      match m.get? probe, n.get? probe with
      | some old, some new => some (combine old new)
      | some old, none => some old
      | none, found => found :=
  get?_alterAll combine m n.increasing probe

omit [DecidableEq κ] in
/-- Maps that answer every look-up alike are equal. -/
theorem ext_get? {m n : OrderedMap κ α} (same : ∀ key, m.get? key = n.get? key) :
    m = n := by
  obtain ⟨entries, increasing⟩ := m
  obtain ⟨others, increasing'⟩ := n
  apply ext_entries
  simp only
  have members : ∀ key a, (key, a) ∈ entries ↔ (key, a) ∈ others := fun key a => by
    have := same key
    rw [← get?_eq_some_iff (m := ⟨entries, increasing⟩),
      ← get?_eq_some_iff (m := ⟨others, increasing'⟩), this]
  clear same
  induction entries generalizing others with
  | nil =>
    cases others with
    | nil => rfl
    | cons head rest => exact absurd ((members head.1 head.2).2 (by simp)) (by simp)
  | cons head rest ih =>
    obtain ⟨below, tail⟩ := List.pairwise_cons.1 increasing
    cases others with
    | nil => exact absurd ((members head.1 head.2).1 (by simp)) (by simp)
    | cons head' rest' =>
      obtain ⟨below', tail'⟩ := List.pairwise_cons.1 increasing'
      have first : head = head' := by
        have there := (members head.1 head.2).1 (by simp)
        have back := (members head'.1 head'.2).2 (by simp)
        rcases List.mem_cons.1 there with same | there
        · exact same
        · rcases List.mem_cons.1 back with same | back
          · exact same.symm
          · have less := below _ back
            have more := below' _ there
            exact absurd (TransCmp.lt_trans less more) (by simp)
      subst first
      congr 1
      refine ih tail rest' tail' fun key a => ⟨fun member => ?_, fun member => ?_⟩
      · rcases List.mem_cons.1 ((members key a).1 (List.mem_cons_of_mem _ member)) with same | h
        · have := below _ member; rw [← same] at this; simp at this
        · exact h
      · rcases List.mem_cons.1 ((members key a).2 (List.mem_cons_of_mem _ member)) with same | h
        · have := below' _ member; rw [← same] at this; simp at this
        · exact h

end Lawful

end OrderedMap

end TrustMesh
