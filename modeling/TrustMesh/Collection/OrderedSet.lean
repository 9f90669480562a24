/-!
# Ordered finite sets

A set is the list of its elements in strictly increasing order. The order is part
of the type, so two sets with the same elements are equal (`OrderedSet.ext_mem`).

Every operation is described by what it does to membership.
-/

namespace TrustMesh

open Std

variable {κ : Type} [Ord κ]

/-- A finite set of `κ`, listed in increasing order. -/
structure OrderedSet (κ : Type) [Ord κ] where
  toList : List κ
  increasing : toList.Pairwise fun a b => compare a b = .lt

namespace OrderedSet

@[ext] theorem ext_toList {s t : OrderedSet κ} (same : s.toList = t.toList) : s = t := by
  cases s; cases t; cases same; rfl

instance [DecidableEq κ] : DecidableEq (OrderedSet κ) := fun s t =>
  decidable_of_iff (s.toList = t.toList) ⟨ext_toList, fun h => h ▸ rfl⟩

/-- The set without elements. -/
def empty : OrderedSet κ := ⟨[], .nil⟩

instance : EmptyCollection (OrderedSet κ) := ⟨empty⟩
instance : Inhabited (OrderedSet κ) := ⟨empty⟩
instance : Membership κ (OrderedSet κ) := ⟨fun s a => a ∈ s.toList⟩

instance [DecidableEq κ] (s : OrderedSet κ) (a : κ) : Decidable (a ∈ s) :=
  inferInstanceAs (Decidable (a ∈ s.toList))

theorem mem_def {s : OrderedSet κ} {a : κ} : a ∈ s ↔ a ∈ s.toList := .rfl

/-- Number of elements. -/
def size (s : OrderedSet κ) : Nat := s.toList.length

/-- Whether the set has no element. -/
def isEmpty (s : OrderedSet κ) : Bool := s.toList.isEmpty

/-- Put `a` at its place in an increasing list that may already hold it. -/
def insertInto (a : κ) : List κ → List κ
  | [] => [a]
  | b :: rest =>
    match compare a b with
    | .lt => a :: b :: rest
    | .eq => b :: rest
    | .gt => b :: insertInto a rest

theorem mem_or_eq_of_mem_insertInto {a c : κ} {elements : List κ}
    (member : c ∈ insertInto a elements) : c = a ∨ c ∈ elements := by
  induction elements with
  | nil => simpa [insertInto] using member
  | cons b rest ih =>
    simp only [insertInto] at member
    split at member
    · simpa using member
    · exact .inr member
    · rcases List.mem_cons.1 member with same | member
      · exact .inr (by simp [same])
      · exact (ih member).imp id (List.mem_cons_of_mem _)

section Ordered

variable [TransOrd κ]

theorem increasing_insertInto (a : κ) {elements : List κ}
    (increasing : elements.Pairwise fun a b => compare a b = .lt) :
    (insertInto a elements).Pairwise fun a b => compare a b = .lt := by
  induction elements with
  | nil => simp [insertInto]
  | cons b rest ih =>
    obtain ⟨below, tail⟩ := List.pairwise_cons.1 increasing
    simp only [insertInto]
    split
    · rename_i less
      refine List.pairwise_cons.2 ⟨fun c member => ?_, increasing⟩
      rcases List.mem_cons.1 member with rfl | member
      · exact less
      · exact TransCmp.lt_trans less (below c member)
    · exact increasing
    · rename_i more
      refine List.pairwise_cons.2 ⟨fun c member => ?_, ih tail⟩
      rcases mem_or_eq_of_mem_insertInto member with same | there
      · rw [same]; exact OrientedCmp.lt_of_gt more
      · exact below c there

/-- Add an element. -/
def insert (s : OrderedSet κ) (a : κ) : OrderedSet κ :=
  ⟨insertInto a s.toList, increasing_insertInto a s.increasing⟩

/-- Add every element of a list. -/
def insertAll (s : OrderedSet κ) (elements : List κ) : OrderedSet κ :=
  elements.foldl insert s

/-- The set of the elements of a list. -/
def ofList (elements : List κ) : OrderedSet κ := empty.insertAll elements

/-- The set with one element. -/
def singleton (a : κ) : OrderedSet κ := empty.insert a

/-- The elements of either set. -/
def union (s t : OrderedSet κ) : OrderedSet κ := s.insertAll t.toList

instance : Union (OrderedSet κ) := ⟨union⟩

end Ordered

/-- The elements other than `a`. -/
def erase (s : OrderedSet κ) (a : κ) : OrderedSet κ :=
  ⟨s.toList.filter fun b => compare a b != .eq, s.increasing.sublist List.filter_sublist⟩

/-! ## What the operations do to membership -/

@[simp] theorem not_mem_empty (a : κ) : a ∉ (empty : OrderedSet κ) := by
  simp [mem_def, empty]

section Lawful

variable [LawfulEqOrd κ]

theorem mem_insertInto {a c : κ} {elements : List κ} :
    c ∈ insertInto a elements ↔ c = a ∨ c ∈ elements := by
  refine ⟨mem_or_eq_of_mem_insertInto, fun member => ?_⟩
  induction elements with
  | nil => simpa [insertInto] using member
  | cons b rest ih =>
    simp only [insertInto]
    split
    · simpa using member
    · rename_i equal
      rcases member with same | member
      · rw [same, LawfulEqCmp.eq_of_compare equal]; simp
      · exact member
    · rcases member with same | member
      · exact List.mem_cons_of_mem _ (ih (.inl same))
      · rcases List.mem_cons.1 member with same | member
        · simp [same]
        · exact List.mem_cons_of_mem _ (ih (.inr member))

variable [TransOrd κ]

@[simp] theorem mem_insert {s : OrderedSet κ} {a c : κ} : c ∈ s.insert a ↔ c = a ∨ c ∈ s :=
  mem_insertInto

@[simp] theorem mem_insertAll {s : OrderedSet κ} {elements : List κ} {c : κ} :
    c ∈ s.insertAll elements ↔ c ∈ s ∨ c ∈ elements := by
  induction elements generalizing s with
  | nil => simp [insertAll]
  | cons b rest ih =>
    have step : c ∈ (s.insert b).insertAll rest ↔ c ∈ s.insert b ∨ c ∈ rest := ih
    rw [show s.insertAll (b :: rest) = (s.insert b).insertAll rest from rfl, step]
    simp only [mem_insert, List.mem_cons]
    constructor
    · rintro ((same | member) | member)
      · exact .inr (.inl same)
      · exact .inl member
      · exact .inr (.inr member)
    · rintro (member | same | member)
      · exact .inl (.inr member)
      · exact .inl (.inl same)
      · exact .inr member

@[simp] theorem mem_ofList {elements : List κ} {c : κ} :
    c ∈ (ofList elements : OrderedSet κ) ↔ c ∈ elements := by
  simp [ofList]

@[simp] theorem mem_singleton {a c : κ} : c ∈ (singleton a : OrderedSet κ) ↔ c = a := by
  simp [singleton]

@[simp] theorem mem_union {s t : OrderedSet κ} {c : κ} : c ∈ s ∪ t ↔ c ∈ s ∨ c ∈ t :=
  mem_insertAll

/-- Sets with the same elements are equal. -/
theorem ext_mem {s t : OrderedSet κ} (same : ∀ a, a ∈ s ↔ a ∈ t) : s = t := by
  obtain ⟨elements, increasing⟩ := s
  obtain ⟨others, increasing'⟩ := t
  apply ext_toList
  simp only [mem_def] at same ⊢
  induction elements generalizing others with
  | nil =>
    cases others with
    | nil => rfl
    | cons b rest => exact absurd ((same b).2 (by simp)) (by simp)
  | cons a rest ih =>
    obtain ⟨below, tail⟩ := List.pairwise_cons.1 increasing
    cases others with
    | nil => exact absurd ((same a).1 (by simp)) (by simp)
    | cons b rest' =>
      obtain ⟨below', tail'⟩ := List.pairwise_cons.1 increasing'
      have first : a = b := by
        rcases List.mem_cons.1 ((same a).1 (by simp)) with equal | there
        · exact equal
        · rcases List.mem_cons.1 ((same b).2 (by simp)) with equal | back
          · exact equal.symm
          · exact absurd (TransCmp.lt_trans (below _ back) (below' _ there)) (by simp)
      subst first
      congr 1
      refine ih tail rest' tail' fun c => ⟨fun member => ?_, fun member => ?_⟩
      · rcases List.mem_cons.1 ((same c).1 (List.mem_cons_of_mem _ member)) with equal | h
        · have := below _ member; rw [equal] at this; simp at this
        · exact h
      · rcases List.mem_cons.1 ((same c).2 (List.mem_cons_of_mem _ member)) with equal | h
        · have := below' _ member; rw [equal] at this; simp at this
        · exact h

end Lawful

end OrderedSet

end TrustMesh
