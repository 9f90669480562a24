import Mathlib.Data.List.Nodup
import TrustMesh.Relay.Seen

/-!
# What bounded memories keep

A memory that is only ever asked to keep keys of a list (`Recency.Within`) no longer than
its capacity forgets nothing (`Recency.peek?_put_of_room`). Without that bound, storing
still invents no key. `Recency.Stores` covers the two things that a relay does to a memory
in one call: nothing, or storing something under one key.
-/

namespace TrustMesh

namespace Recency

variable {κ α : Type} [DecidableEq κ]

omit [DecidableEq κ] in
theorem mem_keys {m : Recency κ α} {key : κ} : key ∈ m.keys ↔ ∃ entry ∈ m.entries, entry.1 = key := by
  simp [keys]

theorem contains_iff {m : Recency κ α} {key : κ} : m.contains key = true ↔ key ∈ m.keys := by
  rw [contains, peek?, Option.isSome_map, List.find?_isSome, mem_keys]
  simp

/-- Storing under a key adds no other key. -/
theorem mem_keys_of_put {m : Recency κ α} {key probe : κ} {value : α}
    (mem : probe ∈ (m.put key value).keys) : probe = key ∨ probe ∈ m.keys := by
  obtain ⟨entry, there, rfl⟩ := mem_keys.1 mem
  rcases List.mem_cons.1 (List.mem_of_mem_take there) with rfl | there
  · exact .inl rfl
  · exact .inr (mem_keys.2 ⟨entry, (List.mem_filter.1 there).1, rfl⟩)

theorem nodup_keys_put {m : Recency κ α} (key : κ) (value : α) (distinct : m.keys.Nodup) :
    (m.put key value).keys.Nodup := by
  have whole : (((key, value) :: m.entries.filter (·.1 ≠ key)).map (·.1)).Nodup := by
    rw [List.map_cons, List.nodup_cons]
    constructor
    · simp
    · exact distinct.sublist (List.filter_sublist.map _)
  exact whole.sublist ((List.take_sublist _ _).map _)

/-- A memory of some capacity that holds keys of a list only, each of them once. -/
structure Within (m : Recency κ α) (kept : List κ) (capacity : Nat) : Prop where
  capacity : m.capacity = capacity
  distinct : m.keys.Nodup
  known : ∀ key ∈ m.keys, key ∈ kept

variable {m next : Recency κ α} {key probe : κ} {value : α} {kept : List κ} {capacity : Nat}

omit [DecidableEq κ] in
theorem Within.mono (within : m.Within kept capacity) {more : List κ}
    (larger : ∀ key ∈ kept, key ∈ more) : m.Within more capacity :=
  ⟨within.capacity, within.distinct, fun key mem => larger key (within.known key mem)⟩

omit [DecidableEq κ] in
theorem within_empty (kept : List κ) (capacity : Nat) :
    (empty capacity : Recency κ α).Within kept capacity :=
  ⟨rfl, List.nodup_nil, by simp [keys, empty]⟩

/-- A memory with room for all keys that it is asked to keep drops nothing. -/
theorem entries_put_of_room (within : m.Within kept capacity) (mem : key ∈ kept)
    (room : kept.length ≤ capacity) :
    (m.put key value).entries = (key, value) :: m.entries.filter (·.1 ≠ key) := by
  have whole : (key :: (m.entries.filter (·.1 ≠ key)).map (·.1)).Nodup := by
    rw [List.nodup_cons]
    constructor
    · simp
    · exact within.distinct.sublist (List.filter_sublist.map _)
  have inside : key :: (m.entries.filter (·.1 ≠ key)).map (·.1) ⊆ kept := by
    intro probe there
    rcases List.mem_cons.1 there with rfl | there
    · exact mem
    · obtain ⟨entry, kept, rfl⟩ := List.mem_map.1 there
      exact within.known _ (mem_keys.2 ⟨entry, (List.mem_filter.1 kept).1, rfl⟩)
  have short := whole.length_le_of_subset inside
  have size := within.capacity
  refine List.take_of_length_le ?_
  simp only [List.length_cons, List.length_map] at short ⊢
  omega

/-- Before any entry is dropped, a look-up finds what was stored last or what was there before. -/
theorem find?_cons_filter (entries : List (κ × α)) (key probe : κ) (value : α) :
    (((key, value) :: entries.filter (·.1 ≠ key)).find? (·.1 = probe)).map (·.2) =
      if probe = key then some value else (entries.find? (·.1 = probe)).map (·.2) := by
  by_cases same : probe = key
  · subst same
    simp
  · have differ : ¬ key = probe := fun equal => same equal.symm
    rw [List.find?_cons_of_neg (by simpa using differ), if_neg same, List.find?_filter]
    congr 2
    funext entry
    by_cases hit : entry.1 = probe
    · simp [hit, same]
    · simp [hit]

/-- With room, a look-up after storing finds what was stored or what was there before. -/
theorem peek?_put_of_room (within : m.Within kept capacity) (mem : key ∈ kept)
    (room : kept.length ≤ capacity) :
    (m.put key value).peek? probe = if probe = key then some value else m.peek? probe := by
  rw [peek?, entries_put_of_room within mem room]
  exact find?_cons_filter m.entries key probe value

/-- With or without room, a look-up after storing finds nothing but what was stored or what was there
before. -/
theorem peek?_of_put {other : α} (found : (m.put key value).peek? probe = some other) :
    (probe = key ∧ other = value) ∨ m.peek? probe = some other := by
  obtain ⟨entry, there, rfl⟩ := Option.map_eq_some_iff.1 found
  have whole := find?_cons_filter m.entries key probe value
  rw [(List.take_prefix ..).find?_eq_some there] at whole
  split at whole
  · rename_i own
    exact .inl ⟨own, Option.some.inj whole⟩
  · exact .inr whole.symm

/-- A look-up after storing finds a key that is still there with what was stored or with what was there
before. -/
theorem peek?_put : (m.put key value).peek? probe =
    if probe ∈ (m.put key value).keys then if probe = key then some value else m.peek? probe
    else none := by
  split
  · rename_i there
    rw [← contains_iff, contains, peek?, Option.isSome_map] at there
    obtain ⟨entry, found⟩ := Option.isSome_iff_exists.1 there
    rw [peek?, found, ← (List.take_prefix ..).find?_eq_some found]
    exact find?_cons_filter m.entries key probe value
  · rename_i absent
    rw [← contains_iff, contains, Bool.not_eq_true, Option.isSome_eq_false_iff,
      Option.isNone_iff_eq_none] at absent
    exact absent

/-- Storing under a key puts it in front of the others; the keys beyond the capacity are dropped. -/
theorem keys_put (distinct : m.keys.Nodup) (key : κ) (value : α) :
    (m.put key value).keys = (key :: m.keys.erase key).take m.capacity := by
  have others : (m.entries.filter (·.1 ≠ key)).map (·.1) = m.keys.erase key := by
    rw [distinct.erase_eq_filter, keys, List.filter_map]
    exact congrArg _ (List.filter_congr fun entry _ => by simp [bne, Bool.beq_eq_decide_eq])
  rw [keys, put, List.map_take, List.map_cons, others]

/-- A memory of one key holds the last key under which something was stored. -/
theorem contains_put_of_one (single : m.capacity = 1) :
    (m.put key value).contains probe = decide (probe = key) := by
  by_cases same : probe = key
  · simp [contains, peek?, put, single, same]
  · have differ : ¬ key = probe := fun equal => same equal.symm
    simp [contains, peek?, put, single, same, differ]

/-- A memory is left alone or stores something under one key. -/
def Stores (m : Recency κ α) (key : κ) (next : Recency κ α) : Prop :=
  next = m ∨ ∃ value, next = m.put key value

theorem Stores.mem_keys (stores : m.Stores key next) (mem : probe ∈ next.keys) :
    probe = key ∨ probe ∈ m.keys := by
  rcases stores with rfl | ⟨value, rfl⟩
  · exact .inr mem
  · exact mem_keys_of_put mem

/-- A memory that stores something under a key of the list holds keys of the list only. -/
theorem Within.stores (within : m.Within kept capacity) (stores : m.Stores key next)
    (mem : key ∈ kept) : next.Within kept capacity := by
  have known : ∀ probe ∈ next.keys, probe ∈ kept := by
    intro probe there
    rcases stores.mem_keys there with rfl | there
    · exact mem
    · exact within.known probe there
  rcases stores with rfl | ⟨value, rfl⟩
  · exact within
  · exact ⟨within.capacity, nodup_keys_put key value within.distinct, known⟩

/-- With room, look-ups under other keys stay as they are. -/
theorem Stores.peek?_of_ne (stores : m.Stores key next) (within : m.Within kept capacity)
    (mem : key ∈ kept) (room : kept.length ≤ capacity) (differ : probe ≠ key) :
    next.peek? probe = m.peek? probe := by
  rcases stores with rfl | ⟨value, rfl⟩
  · rfl
  · rw [peek?_put_of_room within mem room, if_neg differ]

/-- Touching a key that is there stores its value again. -/
theorem exists_touch_eq_put {m : Recency κ α} {key : κ} (known : m.contains key = true) :
    ∃ value, m.touch key = m.put key value := by
  obtain ⟨value, found⟩ := Option.isSome_iff_exists.1 known
  exact ⟨value, by rw [touch, found]⟩

/-! ## Storing under one key leaves the rest in order -/

/-- A memory that holds every key once, and no more of them than it has room for. -/
structure Sound (m : Recency κ α) : Prop where
  distinct : m.keys.Nodup
  fits : m.size ≤ m.capacity

omit [DecidableEq κ] in
theorem sound_empty (capacity : Nat) : (empty capacity : Recency κ α).Sound :=
  ⟨List.nodup_nil, Nat.zero_le _⟩

theorem Sound.stores (sound : m.Sound) (stores : m.Stores key next) : next.Sound := by
  rcases stores with rfl | ⟨value, rfl⟩
  · exact sound
  · exact ⟨nodup_keys_put key value sound.distinct, List.length_take_le ..⟩

/-- A memory in which at most the recency of one key changed: it holds the same entries, and those of
the other keys in the same order. -/
structure Refreshed (m : Recency κ α) (key : κ) (next : Recency κ α) : Prop where
  capacity : next.capacity = m.capacity
  same : next.entries.Perm m.entries
  others : next.entries.filter (·.1 ≠ key) = m.entries.filter (·.1 ≠ key)

theorem Refreshed.refl (m : Recency κ α) (key : κ) : m.Refreshed key m := ⟨rfl, .refl _, rfl⟩

/-- An entry whose key is held once stands in front of the others or is put there. -/
theorem perm_cons_filter {entries : List (κ × α)} (distinct : (entries.map (·.1)).Nodup)
    (mem : (key, value) ∈ entries) :
    ((key, value) :: entries.filter (·.1 ≠ key)).Perm entries := by
  obtain ⟨front, rest, rfl⟩ := List.append_of_mem mem
  have apart : ∀ entry ∈ front ++ rest, entry.1 ≠ key := by
    have once : (((key, value) :: (front ++ rest)).map (·.1)).Nodup :=
      (List.perm_middle.map _).nodup_iff.1 distinct
    rw [List.map_cons, List.nodup_cons] at once
    rintro entry there rfl
    exact once.1 (List.mem_map.2 ⟨entry, there, rfl⟩)
  have others : (front ++ (key, value) :: rest).filter (·.1 ≠ key) = front ++ rest := by
    rw [List.filter_append, List.filter_cons_of_neg (by simp), ← List.filter_append,
      List.filter_eq_self]
    exact fun entry there => decide_eq_true (apart entry there)
  rw [others]
  exact List.perm_middle.symm

/-- Touching a key changes its recency at most. -/
theorem Sound.refreshed_touch (sound : m.Sound) (key : κ) : m.Refreshed key (m.touch key) := by
  unfold touch
  cases found : m.peek? key with
  | none => exact .refl m key
  | some value =>
    obtain ⟨⟨own, held⟩, there, rfl⟩ := Option.map_eq_some_iff.1 found
    obtain rfl : own = key := by simpa using List.find?_some there
    have whole := perm_cons_filter sound.distinct (List.mem_of_find?_eq_some there)
    have entries : (m.put own held).entries = (own, held) :: m.entries.filter (·.1 ≠ own) :=
      List.take_of_length_le (whole.length_eq ▸ sound.fits)
    refine ⟨rfl, entries ▸ whole, ?_⟩
    rw [entries, List.filter_cons_of_neg (by simp), List.filter_filter]
    simp

end Recency

namespace SeenCache

variable {s : SeenCache} {id : MessageId}

/-- An identifier is new exactly if it is not remembered. -/
theorem mark_fst (s : SeenCache) (id : MessageId) : (s.mark id).1 = !s.contains id := by
  unfold mark contains
  split
  · rename_i known
    rw [known]
    rfl
  · rename_i unknown
    simp [unknown]

theorem contains_of_peek? {known : Option Digest} (found : s.entries.peek? id = some known) :
    s.entries.contains id = true := by
  rw [Recency.contains, found]
  rfl

/-- Marking an identifier keeps its digest. -/
theorem entries_mark (s : SeenCache) (id : MessageId) :
    (s.mark id).2.entries = s.entries.put id (s.digest? id) := by
  unfold mark digest? Recency.contains
  cases found : s.entries.peek? id with
  | none => rfl
  | some known => simp [Recency.touch, found]

/-- Marking an identifier stores something under it. -/
theorem exists_mark_eq_put (s : SeenCache) (id : MessageId) :
    ∃ value, (s.mark id).2.entries = s.entries.put id value := ⟨_, s.entries_mark id⟩

/-- Observing content stores something under its identifier. -/
theorem exists_observe_eq_put (s : SeenCache) (id : MessageId) (digest : Digest) :
    ∃ value, (s.observe id digest).2.entries = s.entries.put id value := by
  unfold observe
  split
  · exact ⟨_, rfl⟩
  · rename_i known found
    split
    · exact Recency.exists_touch_eq_put (contains_of_peek? found)
    · exact ⟨_, rfl⟩

/-- Observing content stores its digest. -/
theorem entries_observe (s : SeenCache) (id : MessageId) (digest : Digest) :
    (s.observe id digest).2.entries = s.entries.put id (some digest) := by
  unfold observe
  split
  · rfl
  · rename_i known found
    split
    · rename_i same
      rw [Recency.touch, found, same]
    · rfl

/-- Marking an identifier that is remembered makes it the most recent one. -/
theorem mark_of_contains (known : s.contains id = true) :
    s.mark id = (false, ⟨s.entries.touch id⟩) := if_pos known

/-- Marking an identifier that is new stores it without a digest. -/
theorem mark_of_new (new : s.contains id = false) : s.mark id = (true, ⟨s.entries.put id none⟩) :=
  if_neg (Bool.eq_false_iff.1 new)

/-- Content that was seen last under its identifier makes the identifier the most recent one. -/
theorem observe_of_unchanged {digest : Digest} (unchanged : (s.observe id digest).1 = .unchanged) :
    s.contains id = true ∧ (s.observe id digest).2 = ⟨s.entries.touch id⟩ := by
  unfold observe at unchanged ⊢
  split at unchanged
  · cases unchanged
  · rename_i known found
    split at unchanged
    · rename_i same
      exact ⟨contains_of_peek? found, if_pos same ▸ rfl⟩
    · cases unchanged

/-- Content is a first sighting exactly if its identifier is not remembered. -/
theorem observe_fst_eq_first {digest : Digest} :
    (s.observe id digest).1 = .first ↔ s.contains id = false := by
  unfold observe contains Recency.contains
  split
  · rename_i absent
    simp [absent]
  · rename_i known found
    split <;> simp [found]

/-- An identifier gains a digest only if one is stored under it. -/
theorem digest?_of_put {next : SeenCache} {other : MessageId} {value : Option Digest}
    (stored : next.entries = s.entries.put other value) (blank : s.digest? id = none)
    (own : id = other → value = none) : next.digest? id = none := by
  rw [digest?, stored]
  cases found : (s.entries.put other value).peek? id with
  | none => rfl
  | some known =>
    rcases Recency.peek?_of_put found with ⟨same, rfl⟩ | before
    · exact own same
    · rwa [digest?, before] at blank

/-- With room, an identifier under which something was stored is remembered. -/
theorem contains_of_put {next : SeenCache} {value : Option Digest} {kept : List MessageId}
    {capacity : Nat} (stored : next.entries = s.entries.put id value)
    (within : s.entries.Within kept capacity) (mem : id ∈ kept) (room : kept.length ≤ capacity) :
    next.contains id = true := by
  rw [contains, stored, Recency.contains, Recency.peek?_put_of_room within mem room, if_pos rfl]
  rfl

/-- An identifier is remembered if something was stored under another one and it was remembered. -/
theorem contains_of_stores {next : SeenCache} {other : MessageId}
    (stores : s.entries.Stores other next.entries) (differ : id ≠ other)
    (remembered : next.contains id = true) : s.contains id = true := by
  rw [contains, Recency.contains_iff] at remembered ⊢
  exact (stores.mem_keys remembered).resolve_left differ

/-- With room, what is stored under other identifiers does not matter. -/
theorem contains_eq_of_stores {next : SeenCache} {other : MessageId} {kept : List MessageId}
    {capacity : Nat} (stores : s.entries.Stores other next.entries)
    (within : s.entries.Within kept capacity) (mem : other ∈ kept) (room : kept.length ≤ capacity)
    (differ : id ≠ other) : next.contains id = s.contains id := by
  rw [contains, contains, Recency.contains, Recency.contains,
    stores.peek?_of_ne within mem room differ]

/-- With room, what is remembered stays remembered. -/
theorem contains_of_room {next : SeenCache} {other : MessageId} {kept : List MessageId}
    {capacity : Nat} (stores : s.entries.Stores other next.entries)
    (within : s.entries.Within kept capacity) (mem : other ∈ kept) (room : kept.length ≤ capacity)
    (remembered : s.contains id = true) : next.contains id = true := by
  by_cases same : id = other
  · subst same
    rcases stores with kept | ⟨value, stored⟩
    · rwa [contains, kept]
    · exact contains_of_put stored within mem room
  · rwa [contains_eq_of_stores stores within mem room same]

end SeenCache

end TrustMesh
