import TrustMesh.Collection.OrderedSet

/-!
# Credential oracles

An oracle answers questions about what the local peer holds, or fails. Its answer
depends on the question alone.
-/

namespace TrustMesh

/-- What can be asked about the local peer: whether it holds a credential of a schema from an
issuer, whether it is a peer, whether it holds a credential of a definition. -/
inductive Question where
  | schema (schema issuer : String)
  | identity (peer : String)
  | credDef (credDef : String)
deriving DecidableEq

namespace Question

/-- The line that records a question. -/
def describe : Question → String
  | .schema id issuer => s!"schema {id} {issuer}"
  | .identity peer => s!"identity {peer}"
  | .credDef id => s!"cred_def {id}"

/-- The identifiers that a question mentions, in order. -/
def mentions : Question → List String
  | .schema id issuer => [id, issuer]
  | .identity peer => [peer]
  | .credDef id => [id]

end Question

/-- The failure of an oracle: it does not know what was asked about, or its backend failed. -/
inductive OracleFault where
  | unknownObject (reason : String)
  | backend (reason : String)
deriving DecidableEq

/-- The wording of a failure. -/
def OracleFault.message : OracleFault → String
  | .unknownObject reason => s!"unknown ledger object: {reason}"
  | .backend reason => s!"credential backend failure: {reason}"

/-- What answers questions about the local peer. -/
abbrev Oracle := Question → Except OracleFault Bool

/-- Whether the oracle affirms a question; a failure affirms nothing. -/
def Oracle.affirms (oracle : Oracle) (question : Question) : Bool :=
  match oracle question with
  | .ok held => held
  | .error _ => false

/-- The oracle that affirms the listed questions, and fails on every question that mentions one of
the identifiers in `failing`. -/
def Oracle.scripted (held : List Question) (failing : OrderedSet String) : Oracle := fun question =>
  match question.mentions.find? (· ∈ failing) with
  | some id => .error (.backend s!"scripted failure on {id}")
  | none => .ok (question ∈ held)

end TrustMesh
