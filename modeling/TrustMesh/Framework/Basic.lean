import TrustMesh.Collection.OrderedMap
import TrustMesh.Collection.OrderedSet
import TrustMesh.Json.Basic

/-!
# Governance frameworks

A framework names the schemas, credential definitions and participants that a
community of peers relies on, declares roles, and states in its permission rules
what a peer has to hold in order to be granted them. Members of the written form
that have no meaning here are kept beside the fields that do.
-/

namespace TrustMesh

/-- A schema or a credential definition: its identifier and the name that rules may call it by. -/
structure LedgerEntry where
  id : String
  name : Option String
  extra : OrderedMap String Json
deriving DecidableEq

/-- The entry with an identifier and a name, and nothing else. -/
def LedgerEntry.named (id name : String) : LedgerEntry := ⟨id, some name, .empty⟩

/-- A participant: its identifier, the name that rules may call it by, and a further identifier
that is kept but not interpreted. -/
structure Participant where
  id : String
  name : Option String
  did : Option String
  extra : OrderedMap String Json
deriving DecidableEq

/-- The participant with an identifier and a name, and nothing else. -/
def Participant.named (id name : String) : Participant := ⟨id, some name, none, .empty⟩

/-- What a rule asks of a peer: to hold a credential of a schema from an issuer, to be a
participant, or to hold a credential of a definition. A condition of any other form is kept as it
was written and never holds. -/
inductive Condition where
  | schema (schema : String) (issuer : Option String)
  | identity (participant : String)
  | credDef (credDef : String)
  | unrecognized (members : OrderedMap String Json)
deriving DecidableEq

/-- The conditions of a rule: all of them have to hold, or any of them. -/
inductive Requirement where
  | all (conditions : List Condition)
  | any (conditions : List Condition)
deriving DecidableEq

/-- The conditions of a requirement. -/
def Requirement.conditions : Requirement → List Condition
  | .all conditions => conditions
  | .any conditions => conditions

/-- A permission rule: the roles it grants when its requirement is met. -/
structure Rule where
  grant : OrderedSet String
  requirement : Requirement
deriving DecidableEq

/-- A governance framework. -/
structure Framework where
  schemas : List LedgerEntry
  credDefs : List LedgerEntry
  participants : List Participant
  roles : List String
  permissions : List Rule
  extra : OrderedMap String Json
deriving DecidableEq

/-- The roles that a rule grants although the framework does not declare them. -/
def Framework.undeclared (f : Framework) : OrderedSet String :=
  .ofList ((f.permissions.flatMap (·.grant.toList)).filter (· ∉ f.roles))

end TrustMesh
