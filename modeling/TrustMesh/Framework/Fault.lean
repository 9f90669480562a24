/-!
# Why a framework or holdings cannot be used
-/

namespace TrustMesh

/-- Why a framework or holdings cannot be used: the text of a framework is malformed, or a file of
holdings is invalid. -/
inductive FrameworkFault where
  | malformed (reason : String)
  | holdings (path reason : String)
deriving DecidableEq

/-- The wording of a fault. -/
def FrameworkFault.message : FrameworkFault → String
  | .malformed reason => s!"malformed governance document: {reason}"
  | .holdings path reason => s!"invalid holdings file {path}: {reason}"

end TrustMesh
