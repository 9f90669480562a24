import TrustMesh.Collection.OrderedSet

/-!
# The algebra of ordered sets

Sets with the same elements are equal, so unions may be taken in any order, and what was
added once adds nothing when it comes up again, however late.
-/

namespace TrustMesh

open Std

namespace OrderedSet

variable {κ : Type} [Ord κ] [TransOrd κ] [LawfulEqOrd κ] (s t u : OrderedSet κ)

theorem union_assoc : s ∪ t ∪ u = s ∪ (t ∪ u) :=
  ext_mem fun a => by simp only [mem_union, or_assoc]

theorem union_comm : s ∪ t = t ∪ s :=
  ext_mem fun a => by simp only [mem_union, or_comm]

theorem union_self : s ∪ s = s :=
  ext_mem fun a => by simp only [mem_union, or_self]

/-- A set that was joined already adds nothing. -/
theorem union_union_self : s ∪ t ∪ s = s ∪ t :=
  ext_mem fun a => by simp only [mem_union, or_right_comm, or_self]

/-- The elements of a list are added as a set. -/
theorem union_ofList (elements : List κ) : s ∪ ofList elements = s.insertAll elements :=
  ext_mem fun a => by simp only [mem_union, mem_ofList, mem_insertAll]

theorem ofList_toList : ofList s.toList = s :=
  ext_mem fun a => by rw [mem_ofList, mem_def]

theorem ofList_append (elements others : List κ) :
    (ofList (elements ++ others) : OrderedSet κ) = (ofList elements).insertAll others :=
  ext_mem fun a => by simp only [mem_ofList, mem_insertAll, List.mem_append]

/-- Elements that were added already change nothing. -/
theorem insertAll_insertAll (elements : List κ) :
    (s.insertAll elements).insertAll elements = s.insertAll elements :=
  ext_mem fun a => by simp only [mem_insertAll, or_assoc, or_self]

end OrderedSet

end TrustMesh
