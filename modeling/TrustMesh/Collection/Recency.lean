/-!
# Bounded maps that forget the least recently used key

A `Recency` map keeps its entries in the order of their last use, the most recent
first, and holds at most `capacity` of them. Touching a key moves its entry to the
front; storing a new key in a full map drops the last entry. Looking at an entry
without touching it (`peek?`, `contains`) leaves the order alone.
-/

namespace TrustMesh

/-- Entries in order of last use, the most recent first. -/
structure Recency (κ α : Type) where
  capacity : Nat
  entries : List (κ × α)
deriving DecidableEq

namespace Recency

variable {κ α : Type} [DecidableEq κ]

/-- The map without entries that can hold `capacity` of them. -/
def empty (capacity : Nat) : Recency κ α := ⟨capacity, []⟩

/-- Number of entries. -/
def size (m : Recency κ α) : Nat := m.entries.length

/-- The value stored under `key`; its recency stays as it is. -/
def peek? (m : Recency κ α) (key : κ) : Option α := (m.entries.find? (·.1 = key)).map (·.2)

/-- Whether something is stored under `key`; its recency stays as it is. -/
def contains (m : Recency κ α) (key : κ) : Bool := (m.peek? key).isSome

/-- Keys in order of last use, the most recent first. -/
def keys (m : Recency κ α) : List κ := m.entries.map (·.1)

/-- Store `value` under `key` as the most recent entry. A key that is new to a full map displaces
the entry that was not used for the longest time. -/
def put (m : Recency κ α) (key : κ) (value : α) : Recency κ α :=
  { m with entries := ((key, value) :: m.entries.filter (·.1 ≠ key)).take m.capacity }

/-- Make the entry of `key`, if there is one, the most recent. -/
def touch (m : Recency κ α) (key : κ) : Recency κ α :=
  match m.peek? key with
  | some value => m.put key value
  | none => m

/-- The same map without any entry. -/
def clear (m : Recency κ α) : Recency κ α := { m with entries := [] }

end Recency

end TrustMesh
