import TrustMesh.Framework.Oracle
import TrustMesh.Json.Basic
import TrustMesh.Peer.Identity

/-!
# Holdings

The holdings of a peer list who it is and which credentials it holds. They answer
every question. Issuers and peers are compared without their namespaces, schemas and
credential definitions as they are.
-/

namespace TrustMesh

/-- A credential of a schema from an issuer. -/
structure SchemaCredential where
  schema : String
  issuer : String
deriving DecidableEq

/-- What a peer is and holds. -/
structure Holdings where
  identities : List String
  schemaCredentials : List SchemaCredential
  credDefs : List String
deriving DecidableEq

namespace Holdings

/-- No holdings. -/
def empty : Holdings := ⟨[], [], []⟩

instance : EmptyCollection Holdings := ⟨empty⟩
instance : Inhabited Holdings := ⟨empty⟩

/-- Whether the holdings answer a question with yes. -/
def affirms (h : Holdings) : Question → Bool
  | .schema schema issuer =>
    h.schemaCredentials.any fun c =>
      c.schema = schema && withoutNamespace c.issuer = withoutNamespace issuer
  | .identity peer => h.identities.any fun own => withoutNamespace own = withoutNamespace peer
  | .credDef credDef => h.credDefs.any (· = credDef)

/-- The oracle that answers by the holdings. -/
def oracle (h : Holdings) : Oracle := fun question => .ok (h.affirms question)

/-- The holdings as a JSON value. -/
def toJson (h : Holdings) : Json :=
  .object [
    ("identities", .array (h.identities.map .text)),
    ("schema_credentials", .array (h.schemaCredentials.map fun c =>
      .object [("schema", .text c.schema), ("issuer", .text c.issuer)])),
    ("cred_defs", .array (h.credDefs.map .text))]

end Holdings

end TrustMesh
