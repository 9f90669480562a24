import TrustMesh.Digest.Basic
import TrustMesh.Peer.Identity

/-!
# Identifiers of edges

An edge between two peers is identified by the first sixteen hexadecimal digits of a
digest of both identifiers. The lesser identifier comes first and a zero byte stands
between the two, so the identifier does not depend on the direction.
-/

namespace TrustMesh

open Std

/-- The identifier of an edge. Edges are ordered by the code points of their identifiers. -/
structure EdgeId where
  text : String
deriving DecidableEq

namespace EdgeId

instance : Ord EdgeId := ⟨compareOn EdgeId.text⟩

theorem compare_def (a b : EdgeId) : compare a b = compare a.text b.text := rfl

instance : TransOrd EdgeId := inferInstanceAs (TransCmp (compareOn EdgeId.text))

instance : LawfulEqOrd EdgeId where
  eq_of_compare {a b} same := by
    cases a; cases b
    rw [compare_def] at same
    exact congrArg EdgeId.mk (LawfulEqCmp.eq_of_compare same)
  compare_self {a} := by rw [compare_def]; exact ReflCmp.compare_self

/-- How many digits an identifier has. -/
def length : Nat := 16

/-- Two identifiers, the lesser one first. -/
def inOrder (a b : PeerId) : PeerId × PeerId := if compare a b = .gt then (b, a) else (a, b)

/-- The bytes that identify the edge between two peers. -/
def material (a b : PeerId) : List UInt8 :=
  let (low, high) := inOrder a b
  Utf8.encode low.text.toList ++ 0 :: Utf8.encode high.text.toList

/-- The identifier of the edge between two peers. -/
def between (a b : PeerId) : EdgeId :=
  ⟨String.ofList ((Digest.ofBytes (material a b)).hexChars.take length)⟩

/-- The direction does not matter. -/
theorem inOrder_comm (a b : PeerId) : inOrder a b = inOrder b a := by
  unfold inOrder
  by_cases more : compare a b = .gt
  · have less : compare b a = .lt := OrientedCmp.lt_of_gt more
    simp [more, less]
  · by_cases less : compare b a = .gt
    · simp [more, less]
    · have same : compare a b = .eq := by
        cases h : compare a b with
        | eq => rfl
        | gt => exact absurd h more
        | lt => exact absurd (OrientedCmp.gt_of_lt h) less
      rw [LawfulEqCmp.eq_of_compare same]

/-- The direction does not matter. -/
theorem between_comm (a b : PeerId) : between a b = between b a := by
  simp only [between, material, inOrder_comm a b]

end EdgeId

end TrustMesh
