import TrustMesh.Framework.Codec
import TrustMesh.Framework.Fault
import TrustMesh.Framework.HoldingsCodec
import TrustMesh.Relay.Fault
import TrustMesh.Tool.Files

/-!
# Failures of the command line

A failure says what could not be done and, one behind the other, why. Frameworks and
holdings are loaded here, since both commands need them.
-/

namespace TrustMesh

/-- What a file holds. -/
inductive InputKind where
  | settings
  | framework
  | topology
deriving DecidableEq

/-- The wording of what a file holds. -/
def InputKind.describe : InputKind → String
  | .settings => "config file"
  | .framework => "framework"
  | .topology => "topology"

/-- What could not be done, or why. -/
inductive Cause where
  | reading (kind : InputKind) (path : String)
  | parsing (kind : InputKind) (path : String)
  | file (fault : ReadFault)
  | notToml
  | framework (fault : FrameworkFault)
  | relay (fault : RelayFault)
  | noOrigin
  | unknownOrigin (origin : PeerId)
  | noRoute (target : PeerId)
deriving DecidableEq

/-- The wording of a cause. -/
def Cause.message : Cause → String
  | .reading kind path => s!"Failed to read {kind.describe} {path}"
  | .parsing kind path => s!"Failed to parse {kind.describe} {path}"
  | .file fault => fault.message
  | .notToml => "TOML parse error"
  | .framework fault => fault.message
  | .relay fault => fault.message
  | .noOrigin => "no originating node: pass --from or set [node] id"
  | .unknownOrigin origin => s!"originating node {origin.text} is not in the topology"
  | .noRoute target => s!"no route to {target.text} found"

/-- What could not be done, and the reasons behind it. -/
structure Failure where
  cause : Cause
  because : List Cause
deriving DecidableEq

/-- A failure without a reason behind it. -/
def Cause.alone (cause : Cause) : Failure := ⟨cause, []⟩

/-- Read a file of some kind. -/
def Files.readInput (files : Files) (kind : InputKind) (path : String) :
    Except Failure (List Char) :=
  match files.readText path with
  | .ok text => .ok text
  | .error fault => .error ⟨.reading kind path, [.file fault]⟩

/-- Load a framework. -/
def Framework.load (files : Files) (path : String) : Except Failure Framework := do
  match Framework.parse (← files.readInput .framework path) with
  | .ok framework => return framework
  | .error fault =>
    throw ⟨.parsing .framework path, [.framework (.malformed fault.reason)]⟩

/-- Load holdings. -/
def Holdings.load (files : Files) (path : String) : Except Failure Holdings :=
  let refuse (reason : String) : Except Failure Holdings :=
    .error (Cause.framework (.holdings path reason)).alone
  match files.readText path with
  | .error fault => refuse fault.message
  | .ok text =>
    match Holdings.parse? text with
    | some holdings => .ok holdings
    | none => refuse Cause.notToml.message

end TrustMesh
