import TrustMesh.Framework.Evaluation
import TrustMesh.Json.Printer
import TrustMesh.Tool.Failure

/-!
# Evaluating a framework

Prints the roles that a framework grants to holdings, and on demand the decision on each
of its rules.
-/

namespace TrustMesh

/-- What is to be evaluated: the file of a framework, the file of holdings if there are any, and
whether the decisions are printed. -/
structure Evaluate where
  framework : String
  holdings : Option String
  explain : Bool
deriving DecidableEq

/-- The line on a decision. -/
def Decision.describe (d : Decision) : String :=
  let verdict := if d.granted then "granted" else "denied"
  s!"rule {d.index}: {verdict} after {d.evaluated} condition(s) -> {Text.quoteSet d.roles.toList}"

/-- What is printed. -/
def Evaluate.run (files : Files) (e : Evaluate) : Except Failure String := do
  let framework ← Framework.load files e.framework
  let holdings ← match e.holdings with
    | some path => Holdings.load files path
    | none => pure .empty
  let decisions := (framework.evaluate holdings.oracle).decisions
  let roles := Json.array ((Decision.collect decisions).toList.map .text)
  let lines := if e.explain then decisions.map Decision.describe else []
  return String.join ((lines ++ [roles.pretty]).map (· ++ "\n"))

end TrustMesh
