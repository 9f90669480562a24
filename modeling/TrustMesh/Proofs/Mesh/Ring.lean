import Mathlib.Data.List.DropRight
import TrustMesh.Proofs.Mesh.Deployment

/-!
# Walks and rings

A walk over links that never turns back comes to a peer again only by going round a ring of
links. So a walk that meets no whole ring repeats no peer (`Deployment.nodup_of_straight`).
`Deployment.Dammed` asks of every ring that some node on it can remember so many
exchanges.
-/

namespace TrustMesh

/-- A walk that goes on at every step and never turns back. -/
structure Straight (path : List PeerId) : Prop where
  moves : path.IsChain (· ≠ ·)
  forth : ∀ front a b c rest, path = front ++ a :: b :: c :: rest → a ≠ c

theorem straight_pair {p q : PeerId} (differ : p ≠ q) : Straight [p, q] :=
  ⟨.cons_cons differ (.singleton _), fun front a b c rest whole => by
    have lengths := congrArg List.length whole
    simp at lengths
    omega⟩

/-- A straight walk goes on to a peer that is neither of the last two. -/
theorem Straight.concat {path : List PeerId} {near here far : PeerId}
    (straight : Straight (path ++ [near, here])) (differ : here ≠ far) (forth : near ≠ far) :
    Straight (path ++ [near, here, far]) := by
  have split : path ++ [near, here, far] = path ++ [near, here] ++ [far] := by simp
  constructor
  · rw [split]
    refine List.isChain_append.2 ⟨straight.moves, .singleton _, ?_⟩
    intro x last y first
    rw [show path ++ [near, here] = path ++ [near] ++ [here] by simp, List.getLast?_concat] at last
    cases last
    cases first
    exact differ
  · intro front a b c rest whole
    rcases List.eq_nil_or_concat' rest with rfl | ⟨rest, last, rfl⟩
    · obtain ⟨-, same⟩ := List.append_inj' whole rfl
      cases same
      exact forth
    · rw [split, show front ++ a :: b :: c :: (rest ++ [last]) =
        front ++ a :: b :: c :: rest ++ [last] by simp] at whole
      exact straight.forth front a b c rest (List.append_inj' whole rfl).1

theorem Straight.of_append {front path : List PeerId} (straight : Straight (front ++ path)) :
    Straight path :=
  ⟨(List.isChain_append.1 straight.moves).2.1, fun before a b c rest whole =>
    straight.forth (front ++ before) a b c rest (by simp [whole])⟩

theorem Straight.front {path rest : List PeerId} (straight : Straight (path ++ rest)) :
    Straight path :=
  ⟨(List.isChain_append.1 straight.moves).1, fun before a b c after whole =>
    straight.forth before a b c (after ++ rest) (by simp [whole])⟩

namespace Deployment

variable {d : Deployment}

/-- Different peers, at least three of them, each linked to the next and the last to the first. -/
structure Ring (d : Deployment) (ring : List PeerId) : Prop where
  linked : ring.IsChain d.Linked
  closes : ∀ first ∈ ring.head?, ∀ last ∈ ring.getLast?, d.Linked last first
  simple : ring.Nodup
  long : 3 ≤ ring.length

/-- A straight walk that meets no whole ring repeats no peer. -/
theorem nodup_of_straight {path : List PeerId} (straight : Straight path)
    (linked : path.IsChain d.Linked) (ringless : ∀ ring, ring ⊆ path → ¬ d.Ring ring) :
    path.Nodup := by
  induction path using List.reverseRecOn with
  | nil => exact List.nodup_nil
  | append_singleton path last ih =>
    obtain ⟨walked, -, closing⟩ := List.isChain_append.1 linked
    have simple := ih straight.front walked fun ring inside =>
      ringless ring (List.Subset.trans inside (List.subset_append_left ..))
    rw [← List.concat_eq_append, List.nodup_concat]
    refine ⟨fun passed => ?_, simple⟩
    obtain ⟨front, rest, rfl⟩ := List.append_of_mem passed
    obtain ⟨-, inner, -⟩ := List.isChain_append.1 walked
    match rest with
    | [] =>
      have moves := (List.isChain_append.1 straight.moves).2.2 last (by simp) last rfl
      exact moves rfl
    | [other] => exact straight.forth front last other last [] (by simp) rfl
    | other :: next :: rest =>
      refine ringless (last :: other :: next :: rest) ?_
        ⟨inner, ?_, (List.nodup_append.1 simple).2.1, by simp⟩
      · exact fun p there => List.mem_append_left _ (List.mem_append_right _ there)
      · intro first head final tail
        cases head
        refine closing final ?_ last rfl
        rw [List.getLast?_append, tail]
        rfl

/-- A node that can remember so many exchanges. -/
def Roomy (d : Deployment) (exchanges : Nat) (p : PeerId) : Prop :=
  ∃ m ∈ d.members, m.id = p ∧ exchanges ≤ m.settings.seenCapacity

instance (d : Deployment) (exchanges : Nat) (p : PeerId) : Decidable (d.Roomy exchanges p) :=
  inferInstanceAs (Decidable (∃ m ∈ d.members, _))

/-- On every ring of links there is a node that can remember so many exchanges. -/
def Dammed (d : Deployment) (exchanges : Nat) : Prop :=
  ∀ ring, d.Ring ring → ∃ p ∈ ring, d.Roomy exchanges p

/-- Rings are dammed where every node can remember so many exchanges. -/
theorem dammed_of_room {exchanges : Nat}
    (room : ∀ m ∈ d.members, exchanges ≤ m.settings.seenCapacity) : d.Dammed exchanges := by
  intro ring round
  have some : ring ≠ [] := fun none => absurd round.long (by simp [none])
  have linked := round.closes (ring.head some) (List.head_mem_head? some) (ring.getLast some)
    (List.getLast_mem_getLast? some)
  obtain ⟨m, mem, own⟩ := linked.member
  exact ⟨ring.head some, List.head_mem some, m, mem, own, room m mem⟩

/-- The last peers of a route, as far back as none of them can remember so many exchanges. -/
def drift (d : Deployment) (exchanges : Nat) (route : List PeerId) : List PeerId :=
  route.rtakeWhile fun p => !decide (d.Roomy exchanges p)

theorem drift_concat_of_roomy {exchanges : Nat} {p : PeerId} (roomy : d.Roomy exchanges p)
    (route : List PeerId) : d.drift exchanges (route ++ [p]) = [] := by
  rw [drift, List.rtakeWhile_concat, if_neg]
  simpa using roomy

theorem drift_concat_of_not_roomy {exchanges : Nat} {p : PeerId} (full : ¬ d.Roomy exchanges p)
    (route : List PeerId) : d.drift exchanges (route ++ [p]) = d.drift exchanges route ++ [p] := by
  rw [drift, List.rtakeWhile_concat, if_pos]
  · rfl
  · simpa using full

/-- A straight walk does not drift over one peer twice where rings are dammed. -/
theorem Dammed.nodup_drift {exchanges : Nat} (dammed : d.Dammed exchanges) {route : List PeerId}
    (straight : Straight route) (linked : route.IsChain d.Linked) :
    (d.drift exchanges route).Nodup := by
  obtain ⟨front, whole⟩ := List.rtakeWhile_suffix (fun p => !decide (d.Roomy exchanges p)) route
  rw [← whole] at straight linked
  refine nodup_of_straight straight.of_append (List.isChain_append.1 linked).2.1 fun ring inside round => ?_
  obtain ⟨p, there, roomy⟩ := dammed ring round
  have full := List.mem_rtakeWhile_imp (inside there)
  simp [roomy] at full

end Deployment

end TrustMesh
