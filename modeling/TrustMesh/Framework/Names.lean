import TrustMesh.Framework.Basic

/-!
# Names in a framework

Rules refer to schemas, credential definitions and participants by name or by
identifier. A reference stands for the identifier of the last entry that carries it as
its name; a participant may also be referred to by its own identifier. A reference
that nothing carries stands for itself.
-/

namespace TrustMesh

/-- What the references of a framework stand for. -/
structure Framework.Names where
  schemas : OrderedMap String String
  credDefs : OrderedMap String String
  participants : OrderedMap String String

/-- The name of an entry with its identifier. -/
def LedgerEntry.reference (e : LedgerEntry) : List (String × String) :=
  match e.name with
  | some name => [(name, e.id)]
  | none => []

/-- The identifier of a participant and its name, each with the identifier. -/
def Participant.references (p : Participant) : List (String × String) :=
  match p.name with
  | some name => [(p.id, p.id), (name, p.id)]
  | none => [(p.id, p.id)]

namespace Framework

/-- The names of a framework. -/
def names (f : Framework) : Names where
  schemas := .ofList (f.schemas.flatMap LedgerEntry.reference)
  credDefs := .ofList (f.credDefs.flatMap LedgerEntry.reference)
  participants := .ofList (f.participants.flatMap Participant.references)

/-- The identifier a reference to a schema stands for. -/
def Names.schema (n : Names) (reference : String) : String :=
  (n.schemas.get? reference).getD reference

/-- The identifier a reference to a credential definition stands for. -/
def Names.credDef (n : Names) (reference : String) : String :=
  (n.credDefs.get? reference).getD reference

/-- The identifier a reference to a participant stands for. -/
def Names.participant (n : Names) (reference : String) : String :=
  (n.participants.get? reference).getD reference

end Framework

end TrustMesh
