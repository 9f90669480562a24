import TrustMesh.Digest.Blake3
import TrustMesh.Json.Printer
import TrustMesh.Text.Hex
import TrustMesh.Text.Utf8

/-!
# Digests

The digest of some content is the BLAKE3 hash of its bytes. Content that is compared
by digest is written in a canonical form first, so that equal contents have equal
digests.
-/

namespace TrustMesh

/-- A digest of 32 bytes. -/
structure Digest where
  bytes : List UInt8
deriving DecidableEq

namespace Digest

/-- The digest of a list of bytes. -/
def ofBytes (bytes : List UInt8) : Digest := ⟨Blake3.hash bytes⟩

/-- The digest of a text in UTF-8. -/
def ofChars (cs : List Char) : Digest := ofBytes (Utf8.encode cs)

/-- The digest of the compact text of a value. -/
def ofJson (value : Json) : Digest := ofChars value.chars

/-- The bytes in lower-case hexadecimal digits. -/
def hexChars (d : Digest) : List Char := d.bytes.flatMap Text.hexPair

/-- The bytes in lower-case hexadecimal digits. -/
def hex (d : Digest) : String := String.ofList d.hexChars

/-- The digest as an array of its bytes. -/
def toJson (d : Digest) : Json :=
  .array (d.bytes.map fun byte => .number (.integer byte.toNat))

end Digest

end TrustMesh
