import TrustMesh.Framework.Names
import TrustMesh.Framework.Oracle
import TrustMesh.Peer.Identity

/-!
# Evaluating permission rules

A condition puts at most one question to the oracle and holds if the question is
affirmed. The conditions of a rule are evaluated in order, up to the first that
decides: one that holds if any condition is enough, one that does not hold if all of
them are needed. A rule without conditions is granted if all of its conditions are
needed and denied if any of them is.

The questions that were put are part of the result.
-/

namespace TrustMesh

/-- The question of a condition, its references resolved. Issuers and peers are asked about without
their namespaces. A condition that is not recognised, or a schema condition without an issuer,
asks nothing. -/
def Condition.question? (names : Framework.Names) : Condition → Option Question
  | .schema reference (some issuer) =>
    some (.schema (names.schema reference) (withoutNamespace (names.participant issuer)))
  | .schema _ none => none
  | .identity reference => some (.identity (withoutNamespace (names.participant reference)))
  | .credDef reference => some (.credDef (names.credDef reference))
  | .unrecognized _ => none

/-- Whether a condition holds. -/
def Condition.holds (names : Framework.Names) (oracle : Oracle) (c : Condition) : Bool :=
  match c.question? names with
  | some question => oracle.affirms question
  | none => false

/-- The outcome of a requirement: whether it is met, how many conditions were evaluated, and the
questions that they asked, in order. -/
structure Verdict where
  met : Bool
  evaluated : Nat
  asked : List Question
deriving DecidableEq

/-- Evaluate conditions up to the first whose outcome is `decisive`. -/
def Verdict.ofConditions (names : Framework.Names) (oracle : Oracle) (decisive : Bool) :
    List Condition → Verdict
  | [] => ⟨!decisive, 0, []⟩
  | c :: rest =>
    let asked := (c.question? names).toList
    if c.holds names oracle = decisive then ⟨decisive, 1, asked⟩
    else
      let later := Verdict.ofConditions names oracle decisive rest
      ⟨later.met, later.evaluated + 1, asked ++ later.asked⟩

/-- Evaluate a requirement. -/
def Requirement.verdict (names : Framework.Names) (oracle : Oracle) : Requirement → Verdict
  | .all conditions => .ofConditions names oracle false conditions
  | .any conditions => .ofConditions names oracle true conditions

/-- The decision on one rule: its position, whether it is granted, the roles it grants, and how
many of its conditions were evaluated. -/
structure Decision where
  index : Nat
  granted : Bool
  roles : OrderedSet String
  evaluated : Nat
deriving DecidableEq

/-- The decisions on all rules of a framework in order, and all questions that were asked. -/
structure Evaluation where
  decisions : List Decision
  asked : List Question
deriving DecidableEq

namespace Framework

/-- Evaluate the rules from position `index` on. -/
def evaluateFrom (names : Names) (oracle : Oracle) (index : Nat) : List Rule → Evaluation
  | [] => ⟨[], []⟩
  | rule :: rest =>
    let verdict := rule.requirement.verdict names oracle
    let later := evaluateFrom names oracle (index + 1) rest
    ⟨⟨index, verdict.met, rule.grant, verdict.evaluated⟩ :: later.decisions,
      verdict.asked ++ later.asked⟩

/-- Evaluate every rule of a framework, in order. -/
def evaluate (f : Framework) (oracle : Oracle) : Evaluation :=
  evaluateFrom f.names oracle 0 f.permissions

end Framework

/-- The roles of the granted decisions. -/
def Decision.collect (decisions : List Decision) : OrderedSet String :=
  .ofList ((decisions.filter (·.granted)).flatMap (·.roles.toList))

/-- The roles that a framework grants to the peer that the oracle speaks for. -/
def Framework.grantedRoles (f : Framework) (oracle : Oracle) : OrderedSet String :=
  Decision.collect (f.evaluate oracle).decisions

end TrustMesh
