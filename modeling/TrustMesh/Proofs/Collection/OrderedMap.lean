import Mathlib.Data.List.Induction
import Mathlib.Data.List.Nodup
import TrustMesh.Collection.OrderedMap

/-!
# Maps that are built entry by entry

A map is rebuilt from its entries, or from its values alone, by additions that file each
under its key. The map of any list of entries holds entries of the list, and the map of
values with different keys holds all of them.
-/

namespace TrustMesh

open Std

namespace OrderedMap

variable {κ α β : Type} [Ord κ] [TransOrd κ] [LawfulEqOrd κ] [DecidableEq κ]

/-- A map is rebuilt from its entries by additions that file each value under its key. -/
theorem foldl_entries (view : β → OrderedMap κ α) {m : OrderedMap κ α} {step : β → κ × α → β}
    (adds : ∀ b k a, m.get? k = some a → (view b).get? k = none → ∀ probe,
      (view (step b (k, a))).get? probe = if probe = k then some a else (view b).get? probe)
    {b : β} (start : view b = .empty) : view (m.entries.foldl step b) = m := by
  have general : ∀ (entries : List (κ × α)) (b : β), KeysIncrease entries →
      (∀ e ∈ entries, m.get? e.1 = some e.2) → (∀ e ∈ entries, (view b).get? e.1 = none) →
      ∀ probe, (view (entries.foldl step b)).get? probe =
        (OrderedMap.lookup probe entries).or ((view b).get? probe) := by
    intro entries
    induction entries with
    | nil => simp [OrderedMap.lookup]
    | cons e rest ih =>
      intro b increasing stored fresh probe
      obtain ⟨k, a⟩ := e
      obtain ⟨below, increasing⟩ := List.pairwise_cons.1 increasing
      have added := adds b k a (stored (k, a) (by simp)) (fresh (k, a) (by simp))
      have later : ∀ e ∈ rest, (view (step b (k, a))).get? e.1 = none := by
        intro e mem
        have differ : e.1 ≠ k := by
          intro same
          have less := below e mem
          have equal : compare k k = .eq := ReflCmp.compare_self
          rw [same, equal] at less
          cases less
        rw [added, if_neg differ]
        exact fresh e (List.mem_cons_of_mem _ mem)
      rw [List.foldl_cons,
        ih _ increasing (fun e mem => stored e (List.mem_cons_of_mem _ mem)) later, added]
      by_cases here : probe = k
      · subst here
        simp [OrderedMap.lookup, OrderedMap.lookup_eq_none below]
      · have away : compare probe k ≠ .eq := fun same => here (LawfulEqCmp.eq_of_compare same)
        simp [OrderedMap.lookup, here, away]
  refine OrderedMap.ext_get? fun probe => ?_
  rw [general m.entries b m.increasing]
  · rw [start, OrderedMap.get?_empty, Option.or_none]
    rfl
  · exact fun e mem => OrderedMap.get?_eq_some_iff.2 mem
  · simp [start]

/-- A map is rebuilt from its values by additions that file each value under its key. -/
theorem foldl_values (view : β → OrderedMap κ α) {m : OrderedMap κ α} {step : β → α → β}
    (adds : ∀ b k a, m.get? k = some a → (view b).get? k = none → ∀ probe,
      (view (step b a)).get? probe = if probe = k then some a else (view b).get? probe)
    {b : β} (start : view b = .empty) : view (m.values.foldl step b) = m := by
  rw [OrderedMap.values, List.foldl_map]
  exact foldl_entries view adds start

/-- A map is the map of its entries. -/
theorem ofList_entries (m : OrderedMap κ α) : ofList m.entries = m :=
  foldl_entries (fun n => n) (fun n k a _ _ probe => get?_insert n k probe a) rfl

omit [DecidableEq κ] in
/-- Entries that stand in key order are those of their map. -/
theorem entries_ofList {entries : List (κ × α)} (increasing : KeysIncrease entries) :
    (ofList entries).entries = entries := by
  classical
  exact congrArg OrderedMap.entries (ofList_entries ⟨entries, increasing⟩)

/-- An entry of a map that stores one more value is the new one or an old one. -/
theorem mem_entries_insert {m : OrderedMap κ α} {k : κ} {a : α} {e : κ × α}
    (there : e ∈ (m.insert k a).entries) : e = (k, a) ∨ e ∈ m.entries := by
  have found := get?_eq_some_iff.2 there
  rw [get?_insert] at found
  split at found
  · rename_i own
    exact .inl (Prod.ext own (Option.some.inj found).symm)
  · exact .inr (get?_eq_some_iff.1 found)

/-- The map of a list of entries holds entries of the list. -/
theorem mem_entries_ofList {entries : List (κ × α)} {e : κ × α}
    (there : e ∈ (ofList entries).entries) : e ∈ entries := by
  have general : ∀ (entries : List (κ × α)) (m : OrderedMap κ α),
      e ∈ (entries.foldl (fun m entry => m.insert entry.1 entry.2) m).entries →
        e ∈ entries ∨ e ∈ m.entries := by
    intro entries
    induction entries with
    | nil => exact fun _ there => .inr there
    | cons entry rest ih =>
      intro m there
      rcases ih _ there with later | first
      · exact .inl (List.mem_cons_of_mem _ later)
      · rcases mem_entries_insert first with same | old
        · exact .inl (same ▸ List.mem_cons_self ..)
        · exact .inr old
  rcases general entries empty there with mem | impossible
  · exact mem
  · cases impossible

/-- Where the second of two lists of entries holds a key, the first does not matter. -/
theorem get?_ofList_append (first second : List (κ × α)) (key : κ) :
    (ofList (first ++ second)).get? key = ((ofList second).get? key).or ((ofList first).get? key) := by
  induction second using List.reverseRecOn with
  | nil => rw [List.append_nil, ofList.eq_1 [], List.foldl_nil, get?_empty, Option.none_or]
  | append_singleton second entry ih =>
    have step (entries : List (κ × α)) :
        ofList (entries ++ [entry]) = (ofList entries).insert entry.1 entry.2 :=
      List.foldl_concat ..
    rw [← List.append_assoc, step, step, get?_insert, get?_insert, ih]
    split <;> rfl

omit [TransOrd κ] [DecidableEq κ] in
theorem isSome_get?_iff {m : OrderedMap κ α} {k : κ} : (m.get? k).isSome ↔ k ∈ m.keys := by
  simp only [Option.isSome_iff_exists, get?_eq_some_iff, keys, List.mem_map, Prod.exists,
    exists_eq_right, exists_and_right]

/-- The map of a list of entries has the keys of the list. -/
theorem mem_keys_ofList {entries : List (κ × α)} {k : κ} :
    k ∈ (ofList entries).keys ↔ k ∈ entries.map Prod.fst := by
  rw [← isSome_get?_iff]
  induction entries using List.reverseRecOn with
  | nil => simp [ofList]
  | append_singleton entries entry ih =>
    have step : ofList (entries ++ [entry]) = (ofList entries).insert entry.1 entry.2 :=
      List.foldl_concat ..
    rw [step, get?_insert, List.map_append, List.mem_append, ← ih]
    by_cases own : k = entry.1
    · simp [own]
    · simp [own]

/-! ## Values with different keys -/

omit [LawfulEqOrd κ] [DecidableEq κ] in
/-- No key stands in a map twice. -/
theorem nodup_keys (m : OrderedMap κ α) : m.keys.Nodup := by
  refine List.Pairwise.map Prod.fst ?_ m.increasing
  intro a b less same
  have equal : compare a.1 b.1 = .eq := same ▸ ReflCmp.compare_self
  rw [equal] at less
  cases less

omit [DecidableEq κ] in
/-- A map that answers every look-up as a list of entries with different keys does holds the entries
of the list. -/
theorem entries_perm {m : OrderedMap κ α} {entries : List (κ × α)}
    (distinct : (entries.map Prod.fst).Nodup)
    (same : ∀ k a, m.get? k = some a ↔ (k, a) ∈ entries) : m.entries.Perm entries := by
  refine (List.perm_ext_iff_of_nodup (List.Nodup.of_map _ m.nodup_keys) distinct.of_map).2 ?_
  intro e
  exact get?_eq_some_iff.symm.trans (same e.1 e.2)

theorem insert_comm (m : OrderedMap κ α) {k l : κ} (differ : k ≠ l) (a b : α) :
    (m.insert k a).insert l b = (m.insert l b).insert k a := by
  refine ext_get? fun probe => ?_
  rw [get?_insert, get?_insert, get?_insert, get?_insert]
  by_cases first : probe = k
  · rw [if_pos first, if_pos first, if_neg (first.trans_ne differ)]
  · rw [if_neg first, if_neg first]

theorem insert_insert (m : OrderedMap κ α) (k : κ) (a b : α) :
    (m.insert k a).insert k b = m.insert k b := by
  refine ext_get? fun probe => ?_
  rw [get?_insert, get?_insert, get?_insert]
  split <;> rfl

/-- A map that stores one more value holds it and all that stands under other keys. -/
theorem entries_insert_perm (m : OrderedMap κ α) (k : κ) (a : α) :
    (m.insert k a).entries.Perm (m.entries.filter (·.1 ≠ k) ++ [(k, a)]) := by
  refine entries_perm ?_ fun l b => ?_
  · rw [List.map_append, List.map_singleton]
    refine List.Nodup.append (m.nodup_keys.sublist (List.filter_sublist.map _))
      (List.nodup_singleton k) ?_
    intro l there own
    obtain ⟨e, mem, rfl⟩ := List.mem_map.1 there
    have apart := (List.mem_filter.1 mem).2
    rw [List.mem_singleton.1 own] at apart
    simp at apart
  · rw [get?_insert, List.mem_append, List.mem_filter, List.mem_singleton, ← get?_eq_some_iff]
    by_cases own : l = k
    · simp [own, eq_comm]
    · simp [own]

/-- A map that stores a value under a new key holds it and all that it held. -/
theorem entries_insert_perm_of_new {m : OrderedMap κ α} {k : κ} (new : m.get? k = none) (a : α) :
    (m.insert k a).entries.Perm (m.entries ++ [(k, a)]) := by
  have whole : m.entries.filter (·.1 ≠ k) = m.entries := by
    refine List.filter_eq_self.2 fun e there => decide_eq_true ?_
    rintro rfl
    rw [get?_eq_some_iff.2 there] at new
    cases new
  have perm := m.entries_insert_perm k a
  rwa [whole] at perm

/-- What is stored in a map can be taken out and put to the end. -/
theorem entries_perm_of_get? {m : OrderedMap κ α} {k : κ} {a : α} (found : m.get? k = some a) :
    m.entries.Perm (m.entries.filter (·.1 ≠ k) ++ [(k, a)]) := by
  have same : m.insert k a = m := by
    refine ext_get? fun probe => ?_
    rw [get?_insert]
    split
    · rename_i own
      rw [own, found]
    · rfl
  have perm := m.entries_insert_perm k a
  rwa [same] at perm

omit [Ord κ] [TransOrd κ] [LawfulEqOrd κ] in
/-- Under the key of a value some value is the first. -/
theorem exists_find?_key (key : α → κ) {items : List α} {a : α} (there : a ∈ items) :
    ∃ first ∈ items, key first = key a ∧ items.find? (key · = key a) = some first := by
  obtain ⟨first, found⟩ := Option.isSome_iff_exists.1
    (List.find?_isSome.2 ⟨a, there, by simp⟩ : (items.find? (key · = key a)).isSome)
  exact ⟨first, List.mem_of_find?_eq_some found, by simpa using List.find?_some found, found⟩

/-- Of values that are filed under one key the first is found. -/
theorem get?_foldl_insertNew (key : α → κ) (items : List α) (m : OrderedMap κ α) (probe : κ) :
    (items.foldl (fun m a => m.insertNew (key a) a) m).get? probe =
      (m.get? probe).or (items.find? (key · = probe)) := by
  induction items generalizing m with
  | nil => simp
  | cons a rest ih =>
    rw [List.foldl_cons, ih, get?_insertNew]
    by_cases here : key a = probe
    · subst here
      cases m.get? (key a) <;> simp
    · simp [here, Ne.symm here]

/-- Values with different keys are all kept. -/
theorem entries_foldl_insertNew (key : α → κ) {items : List α} (distinct : (items.map key).Nodup) :
    (items.foldl (fun m a => m.insertNew (key a) a) empty).entries.Perm
      (items.map fun a => (key a, a)) := by
  refine entries_perm (by simpa [Function.comp_def] using distinct) fun k a => ?_
  rw [get?_foldl_insertNew, get?_empty, Option.none_or, List.mem_map]
  constructor
  · intro found
    exact ⟨a, List.mem_of_find?_eq_some found, by simpa using List.find?_some found⟩
  · rintro ⟨_, there, same⟩
    cases same
    obtain ⟨first, there', own, found⟩ := exists_find?_key key there
    rw [found, List.inj_on_of_nodup_map distinct there' there own]

/-! ## Values that are changed -/

omit [TransOrd κ] [LawfulEqOrd κ] [DecidableEq κ] in
/-- A look-up among changed values finds the changed value. -/
@[simp] theorem get?_mapValues (f : α → β) (m : OrderedMap κ α) (key : κ) :
    (m.mapValues f).get? key = (m.get? key).map f := by
  have general : ∀ entries : List (κ × α),
      lookup key (entries.map fun entry => (entry.1, f entry.2)) = (lookup key entries).map f := by
    intro entries
    induction entries with
    | nil => rfl
    | cons head rest ih =>
      simp only [List.map_cons, lookup, ih]
      split <;> rfl
  exact general m.entries

/-- Values may be changed before they are filed. -/
theorem mapValues_ofList (f : α → β) (entries : List (κ × α)) :
    (ofList entries).mapValues f = ofList (entries.map fun entry => (entry.1, f entry.2)) := by
  have general : ∀ (entries : List (κ × α)) (m : OrderedMap κ α),
      (entries.foldl (fun m entry => m.insert entry.1 entry.2) m).mapValues f =
        (entries.map fun entry => (entry.1, f entry.2)).foldl
          (fun m entry => m.insert entry.1 entry.2) (m.mapValues f) := by
    intro entries
    induction entries with
    | nil => exact fun _ => rfl
    | cons head rest ih =>
      intro m
      rw [List.foldl_cons, ih, List.map_cons, List.foldl_cons]
      congr 1
      refine ext_get? fun key => ?_
      rw [get?_mapValues, get?_insert, get?_insert, get?_mapValues]
      split <;> rfl
  exact general entries empty

end OrderedMap

end TrustMesh
