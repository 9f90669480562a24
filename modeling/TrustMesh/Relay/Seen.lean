import TrustMesh.Collection.Recency
import TrustMesh.Digest.Basic
import TrustMesh.Message.Id

/-!
# What a relay has seen

A relay remembers the identifiers of the exchanges it dealt with, and for some of them
the digest of the content it saw last. The memory is bounded; the identifier that was
not used for the longest time is forgotten first. Asking about an identifier is not a
use.
-/

namespace TrustMesh

/-- What is learned when content is seen under an identifier. -/
inductive Sighting where
  | first
  | unchanged
  | changed
deriving DecidableEq

/-- The identifiers that are remembered, each with the digest of the content seen last. -/
structure SeenCache where
  entries : Recency MessageId (Option Digest)
deriving DecidableEq

namespace SeenCache

/-- The cache that remembers nothing yet. -/
def empty (capacity : Nat) : SeenCache := ⟨.empty capacity⟩

/-- Use an identifier; tells whether it is new. -/
def mark (s : SeenCache) (id : MessageId) : Bool × SeenCache :=
  if s.entries.contains id then (false, ⟨s.entries.touch id⟩)
  else (true, ⟨s.entries.put id none⟩)

/-- Use an identifier with some content; tells whether it is new, and if not, whether the content
is the same as the last time. -/
def observe (s : SeenCache) (id : MessageId) (digest : Digest) : Sighting × SeenCache :=
  match s.entries.peek? id with
  | none => (.first, ⟨s.entries.put id (some digest)⟩)
  | some known =>
    if known = some digest then (.unchanged, ⟨s.entries.touch id⟩)
    else (.changed, ⟨s.entries.put id (some digest)⟩)

/-- Whether an identifier is remembered. -/
def contains (s : SeenCache) (id : MessageId) : Bool := s.entries.contains id

/-- The digest of the content last seen under an identifier. -/
def digest? (s : SeenCache) (id : MessageId) : Option Digest := (s.entries.peek? id).join

/-- How many identifiers are remembered. -/
def size (s : SeenCache) : Nat := s.entries.size

/-- How many identifiers can be remembered. -/
def capacity (s : SeenCache) : Nat := s.entries.capacity

/-- Forget everything. -/
def clear (s : SeenCache) : SeenCache := ⟨s.entries.clear⟩

end SeenCache

end TrustMesh
