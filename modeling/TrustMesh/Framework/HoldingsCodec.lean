import TrustMesh.Framework.Holdings
import TrustMesh.Toml.Reader

/-!
# The written form of holdings

Holdings are written in TOML. What is not mentioned is not held.
-/

namespace TrustMesh

namespace SchemaCredential

/-- The record of a credential. -/
def record : Record SchemaCredential where
  name := "credential"
  fields := [
    .required "schema" (fun _ => Decode.text) fun schema c => { c with schema },
    .required "issuer" (fun _ => Decode.text) fun issuer c => { c with issuer }]
  start := ⟨"", ""⟩
  collect := none

end SchemaCredential

namespace Holdings

/-- The record of holdings. -/
def record : Record Holdings where
  name := "holdings"
  fields := [
    .withDefault "identities" (fun _ => Decode.list Decode.text) fun identities h =>
      { h with identities },
    .withDefault "schema_credentials"
      (fun source => Decode.list (SchemaCredential.record.decode source))
      fun schemaCredentials h => { h with schemaCredentials },
    .withDefault "cred_defs" (fun _ => Decode.list Decode.text) fun credDefs h =>
      { h with credDefs }]
  start := .empty
  collect := none

/-- Decode holdings. -/
def decode : Source → Term → Decoded Holdings := record.decode

/-- The holdings that a TOML text describes. -/
def parse? (cs : List Char) : Option Holdings := Toml.decode? decode cs

end Holdings

end TrustMesh
