import Mathlib.Data.List.Dedup
import Mathlib.Data.List.DropRight
import Mathlib.Data.List.Induction
import TrustMesh.Proofs.Collection.Recency

/-!
# What a relay remembers of a history

A cache of bounded size is described by the accesses to it alone. It remembers the
identifiers that were used last, as many as it can hold, since everything was last
forgotten (`SeenCache.latest`), and of each of them the digest of the content that was
observed last without a gap in between (`SeenCache.Retained`). Every answer follows from
these two (`SeenCache.answers_from_history`), and questions leave no trace.
-/

namespace TrustMesh

/-! ## Lists without repeats -/

section Lists

variable {α : Type} [DecidableEq α]

/-- Without repeats, the last use of an element counts. -/
theorem dedup_concat (l : List α) (a : α) : (l ++ [a]).dedup = l.dedup.erase a ++ [a] := by
  induction l with
  | nil => simp
  | cons b rest ih =>
    rw [List.cons_append]
    by_cases later : b ∈ rest
    · rw [List.dedup_cons_of_mem (List.mem_append_left _ later), List.dedup_cons_of_mem later, ih]
    · by_cases same : b = a
      · subst same
        have absent : b ∉ rest.dedup := fun there => later (List.mem_dedup.1 there)
        rw [List.dedup_cons_of_mem (by simp), List.dedup_cons_of_notMem later, ih,
          List.erase_cons_head, List.erase_of_not_mem absent]
      · rw [List.dedup_cons_of_notMem (by simp [later, same]), List.dedup_cons_of_notMem later, ih,
          List.erase_cons_tail (by simpa using same), List.cons_append]

/-- What lies beyond the capacity does not matter when an element is moved to the front. -/
theorem take_cons_erase_take (a : α) (l : List α) (n : Nat) :
    (a :: (l.take n).erase a).take n = (a :: l.erase a).take n := by
  cases n with
  | zero => rfl
  | succ n =>
    rw [List.take_succ_cons, List.take_succ_cons]
    congr 1
    induction l generalizing n with
    | nil => rfl
    | cons b rest ih =>
      rw [List.take_succ_cons]
      by_cases same : b = a
      · subst same
        rw [List.erase_cons_head, List.erase_cons_head, List.take_take, Nat.min_self]
      · rw [List.erase_cons_tail (by simpa using same), List.erase_cons_tail (by simpa using same)]
        cases n with
        | zero => rfl
        | succ n => rw [List.take_succ_cons, List.take_succ_cons, ih]

end Lists

namespace SeenCache

/-! ## Accesses -/

/-- An access to a cache. -/
inductive Access where
  | mark (id : MessageId)
  | observe (id : MessageId) (digest : Digest)
  | contains (id : MessageId)
  | digest (id : MessageId)
  | clear

/-- What an access is answered with. -/
inductive Answer where
  | isNew (value : Bool)
  | sighting (value : Sighting)
  | isKnown (value : Bool)
  | digest (value : Option Digest)
  | done

/-- The identifier that an access uses. -/
def Access.used? : Access → Option MessageId
  | .mark id => some id
  | .observe id _ => some id
  | _ => none

/-- Whether an access is a mere question. -/
def Access.asks : Access → Bool
  | .contains _ => true
  | .digest _ => true
  | _ => false

/-- Whether an access makes the cache forget everything. -/
def Access.clears : Access → Bool
  | .clear => true
  | _ => false

/-- The answer to an access, and the cache after it. -/
def perform (s : SeenCache) : Access → Answer × SeenCache
  | .mark id => (.isNew (s.mark id).1, (s.mark id).2)
  | .observe id digest => (.sighting (s.observe id digest).1, (s.observe id digest).2)
  | .contains id => (.isKnown (s.contains id), s)
  | .digest id => (.digest (s.digest? id), s)
  | .clear => (.done, s.clear)

/-- The cache after a list of accesses. -/
def after (s : SeenCache) (accesses : List Access) : SeenCache :=
  accesses.foldl (fun s access => (s.perform access).2) s

/-- The accesses with their answers. -/
def transcript (s : SeenCache) : List Access → List (Access × Answer)
  | [] => []
  | access :: rest => (access, (s.perform access).1) :: transcript (s.perform access).2 rest

theorem after_concat (s : SeenCache) (accesses : List Access) (access : Access) :
    s.after (accesses ++ [access]) = ((s.after accesses).perform access).2 := by
  rw [after, List.foldl_concat, after]

/-! ## The identifiers that were used last -/

/-- The identifiers that were used since everything was last forgotten, in the order of use. -/
def uses (history : List Access) : List MessageId :=
  (history.rtakeWhile (!·.clears)).filterMap Access.used?

/-- The identifiers that were used last, at most `capacity` of them, each once, the latest first. -/
def latest (capacity : Nat) (history : List Access) : List MessageId :=
  (uses history).dedup.reverse.take capacity

/-- Content with this digest was observed under an identifier, none was observed under it later, and
since then the identifier was always among those used last. -/
def Retained (capacity : Nat) (history : List Access) (id : MessageId) (digest : Digest) : Prop :=
  ∃ before later, history = before ++ .observe id digest :: later ∧
    (∀ other, .observe id other ∉ later) ∧
    ∀ part, part <+: later → id ∈ latest capacity (before ++ .observe id digest :: part)

variable {capacity : Nat} {history : List Access} {access : Access} {id : MessageId}
  {digest : Digest} {s : SeenCache}

theorem uses_concat_of_clears (clears : access.clears = true) : uses (history ++ [access]) = [] := by
  rw [uses, List.rtakeWhile_concat_neg _ _ _ (by simp [clears]), List.filterMap_nil]

theorem uses_concat (keeps : access.clears = false) :
    uses (history ++ [access]) = uses history ++ access.used?.toList := by
  rw [uses, List.rtakeWhile_concat_pos _ _ _ (by simp [keeps]), List.filterMap_append, uses]
  rfl

theorem nodup_latest : (latest capacity history).Nodup :=
  (List.nodup_reverse.2 (List.nodup_dedup _)).sublist (List.take_sublist ..)

/-- An access that uses no identifier leaves the order of use as it is. -/
theorem latest_concat_of_unused (keeps : access.clears = false) (unused : access.used? = none) :
    latest capacity (history ++ [access]) = latest capacity history := by
  rw [latest, uses_concat keeps, unused, Option.toList_none, List.append_nil, latest]

/-- An identifier that is used comes first. -/
theorem latest_concat_of_used (keeps : access.clears = false) (used : access.used? = some id) :
    latest capacity (history ++ [access]) =
      (id :: (latest capacity history).erase id).take capacity := by
  have once : (uses history).dedup.reverse.Nodup := List.nodup_reverse.2 (List.nodup_dedup _)
  have back : ((uses history).dedup.erase id).reverse = (uses history).dedup.reverse.erase id := by
    rw [(List.nodup_dedup _).erase_eq_filter, once.erase_eq_filter, List.filter_reverse]
  rw [latest, latest, uses_concat keeps, used, Option.toList_some, dedup_concat,
    List.reverse_concat, back, take_cons_erase_take]

theorem latest_concat_clear : latest capacity (history ++ [.clear]) = [] := by
  rw [latest, uses_concat_of_clears rfl]
  simp

/-- Exactly the identifiers that were used last are remembered, in the order of their last use. -/
theorem keys_after (capacity : Nat) (history : List Access) :
    ((empty capacity).after history).entries.keys = latest capacity history ∧
      ((empty capacity).after history).entries.capacity = capacity := by
  induction history using List.reverseRecOn with
  | nil => simp [after, latest, uses, Recency.keys, empty, Recency.empty]
  | append_singleton history access ih =>
    obtain ⟨keys, room⟩ := ih
    have distinct : ((empty capacity).after history).entries.keys.Nodup := keys ▸ nodup_latest
    have stored : ∀ id value, access.clears = false → access.used? = some id →
        (((empty capacity).after history).perform access).2.entries =
          ((empty capacity).after history).entries.put id value →
        ((empty capacity).after (history ++ [access])).entries.keys =
          latest capacity (history ++ [access]) ∧
        ((empty capacity).after (history ++ [access])).entries.capacity = capacity := by
      intro id value keeps used stores
      rw [after_concat, stores, Recency.keys_put distinct, room, keys,
        latest_concat_of_used keeps used]
      exact ⟨rfl, room⟩
    cases access with
    | mark id => exact stored id _ rfl rfl (entries_mark ..)
    | observe id digest => exact stored id _ rfl rfl (entries_observe ..)
    | contains id => rw [after_concat, latest_concat_of_unused rfl rfl]; exact ⟨keys, room⟩
    | digest id => rw [after_concat, latest_concat_of_unused rfl rfl]; exact ⟨keys, room⟩
    | clear => rw [after_concat, latest_concat_clear]; exact ⟨rfl, room⟩

theorem contains_after : ((empty capacity).after history).contains id = true ↔
    id ∈ latest capacity history := by
  rw [contains, Recency.contains_iff, (keys_after capacity history).1]

theorem size_after : ((empty capacity).after history).size =
    min capacity (uses history).dedup.length := by
  have keys := congrArg List.length (keys_after capacity history).1
  rw [latest, List.length_take, List.length_reverse] at keys
  rw [← keys, Recency.keys, List.length_map]
  rfl

/-! ## The digests that are kept -/

theorem Retained.mem_latest (retained : Retained capacity history id digest) :
    id ∈ latest capacity history := by
  obtain ⟨before, later, rfl, -, held⟩ := retained
  exact held later (List.prefix_refl later)

/-- Content is retained by a longer history if its identifier is still among those used last and it was
observed just now, or it was retained and nothing else was observed. -/
theorem retained_concat : Retained capacity (history ++ [access]) id digest ↔
    id ∈ latest capacity (history ++ [access]) ∧ (access = .observe id digest ∨
      (∀ other, access ≠ .observe id other) ∧ Retained capacity history id digest) := by
  constructor
  · intro retained
    refine ⟨retained.mem_latest, ?_⟩
    obtain ⟨before, later, whole, silent, held⟩ := retained
    induction later using List.reverseRecOn with
    | nil => exact .inl (List.append_singleton_inj.1 whole).2
    | append_singleton later last =>
      rw [← List.cons_append, ← List.append_assoc] at whole
      obtain ⟨rfl, rfl⟩ := List.append_singleton_inj.1 whole
      refine .inr ⟨fun other same => silent other (by simp [same]), before, later, rfl,
        fun other there => silent other (List.mem_append_left _ there), fun part within => ?_⟩
      exact held part (within.trans (List.prefix_append ..))
  · rintro ⟨present, rfl | ⟨silent, before, later, rfl, quiet, held⟩⟩
    · refine ⟨history, [], rfl, fun _ => List.not_mem_nil, fun part within => ?_⟩
      rwa [List.prefix_nil.1 within]
    · refine ⟨before, later ++ [access], by simp, fun other there => ?_, fun part within => ?_⟩
      · rcases List.mem_append.1 there with there | last
        · exact quiet other there
        · exact silent other (List.mem_singleton.1 last).symm
      · rcases List.prefix_concat_iff.1 within with rfl | within
        · simpa using present
        · exact held part within

/-- The digest of the content that an access observes under an identifier. -/
def Access.content? (id : MessageId) : Access → Option Digest
  | .observe other digest => if id = other then some digest else none
  | _ => none

theorem Access.content?_eq_some_iff :
    access.content? id = some digest ↔ access = .observe id digest := by
  cases access with
  | observe other content => simp [content?, eq_comm]
  | _ => simp [content?]

theorem Access.content?_eq_none_iff :
    access.content? id = none ↔ ∀ other, access ≠ .observe id other := by
  simp only [Option.eq_none_iff_forall_ne_some, ne_eq, content?_eq_some_iff]

/-- What stands under an identifier after something was stored under one. -/
theorem digest?_of_stored {next : SeenCache} {other : MessageId} {value : Option Digest}
    (stored : next.entries = s.entries.put other value) : next.digest? id =
      if id ∈ next.entries.keys then if id = other then value else s.digest? id else none := by
  rw [digest?, digest?, stored, Recency.peek?_put]
  split
  · split <;> rfl
  · rfl

theorem digest?_of_not_mem_keys (absent : id ∉ s.entries.keys) : s.digest? id = none := by
  rw [← Recency.contains_iff, Recency.contains, Bool.not_eq_true, Option.isSome_eq_false_iff,
    Option.isNone_iff_eq_none] at absent
  rw [digest?, absent]
  rfl

/-- An access leaves an identifier that is still there with the digest of the content that it observes
there, or with the digest from before. -/
theorem digest?_perform : (s.perform access).2.digest? id =
    if id ∈ (s.perform access).2.entries.keys then (access.content? id).or (s.digest? id)
    else none := by
  have asked : s.digest? id = if id ∈ s.entries.keys then s.digest? id else none := by
    split
    · rfl
    · rename_i absent
      exact digest?_of_not_mem_keys absent
  cases access with
  | mark other =>
    have same : (if id = other then s.digest? other else s.digest? id) = s.digest? id := by
      split
      · rename_i own
        rw [own]
      · rfl
    refine (digest?_of_stored (entries_mark s other)).trans ?_
    rw [same]
    rfl
  | observe other content =>
    refine (digest?_of_stored (entries_observe s other content)).trans (if_congr Iff.rfl ?_ rfl)
    rw [Access.content?]
    split <;> rfl
  | contains other => exact asked
  | digest other => exact asked
  | clear => rfl

/-- The digest that is kept under an identifier is that of the content that is retained. -/
theorem digest?_after : ((empty capacity).after history).digest? id = some digest ↔
    Retained capacity history id digest := by
  induction history using List.reverseRecOn with
  | nil =>
    refine ⟨fun found => (nomatch found), ?_⟩
    rintro ⟨before, later, whole, -⟩
    simp at whole
  | append_singleton history access ih =>
    have keys := (keys_after capacity (history ++ [access])).1
    rw [after_concat] at keys ⊢
    rw [digest?_perform, keys, Option.ite_none_right_eq_some, Option.or_eq_some_iff, ih,
      Access.content?_eq_some_iff, Access.content?_eq_none_iff, retained_concat]

/-! ## Answers -/

/-- Content is unchanged exactly if its digest is the one that is kept. -/
theorem observe_fst_eq_unchanged :
    (s.observe id digest).1 = .unchanged ↔ s.digest? id = some digest := by
  unfold observe digest?
  cases found : s.entries.peek? id with
  | none => simp
  | some known =>
    by_cases same : known = some digest
    · simp [same]
    · simp [same]

/-- Content has changed exactly if its identifier is remembered with another digest or without one. -/
theorem observe_fst_eq_changed : (s.observe id digest).1 = .changed ↔
    s.contains id = true ∧ s.digest? id ≠ some digest := by
  have first : s.contains id = true ↔ (s.observe id digest).1 ≠ .first := by
    rw [← Bool.not_eq_false, ← observe_fst_eq_first]
  rw [first, Ne.eq_def (s.digest? id), ← observe_fst_eq_unchanged]
  cases (s.observe id digest).1 <;> simp

/-- Questions leave no trace in the answers to the other accesses. -/
theorem filter_transcript (s : SeenCache) (accesses : List Access) :
    (s.transcript accesses).filter (!·.1.asks) = s.transcript (accesses.filter (!·.asks)) := by
  induction accesses generalizing s with
  | nil => rfl
  | cons access rest ih =>
    cases access with
    | contains id => exact ih s
    | digest id => exact ih s
    | _ => exact congrArg _ (ih _)

/-- A cache that was used in any way remembers the identifiers that were used last, as many as it can
hold. An identifier is new, and content is a first sighting, if and only if it is not among them. The
digest that is kept is that of the content observed last, unless the identifier was forgotten since;
content is unchanged if and only if it has this digest. Questions change no answer. -/
theorem answers_from_history (capacity : Nat) (history : List Access) :
    (∀ id, ((empty capacity).after history).contains id = true ↔ id ∈ latest capacity history) ∧
    ((empty capacity).after history).size = min capacity (uses history).dedup.length ∧
    (∀ id, (((empty capacity).after history).mark id).1 = true ↔ id ∉ latest capacity history) ∧
    (∀ id digest, (((empty capacity).after history).observe id digest).1 = .first ↔
      id ∉ latest capacity history) ∧
    (∀ id digest, ((empty capacity).after history).digest? id = some digest ↔
      Retained capacity history id digest) ∧
    (∀ id digest, (((empty capacity).after history).observe id digest).1 = .unchanged ↔
      ((empty capacity).after history).digest? id = some digest) ∧
    (∀ id digest, (((empty capacity).after history).observe id digest).1 = .changed ↔
      id ∈ latest capacity history ∧
        ((empty capacity).after history).digest? id ≠ some digest) ∧
    ((empty capacity).transcript history).filter (!·.1.asks) =
      (empty capacity).transcript (history.filter (!·.asks)) := by
  have present : ∀ id, ((empty capacity).after history).contains id = true ↔
      id ∈ latest capacity history := fun _ => contains_after
  have absent : ∀ id, ((empty capacity).after history).contains id = false ↔
      id ∉ latest capacity history := fun id => by
    rw [← present, Bool.not_eq_true]
  refine ⟨present, size_after, fun id => ?_, fun id digest => ?_, fun _ _ => digest?_after,
    fun _ _ => observe_fst_eq_unchanged, fun id digest => ?_, filter_transcript _ _⟩
  · rw [mark_fst, Bool.not_eq_true', absent]
  · rw [observe_fst_eq_first, absent]
  · rw [observe_fst_eq_changed, present]

end SeenCache

end TrustMesh
