import TrustMesh.Tool.Arguments

/-!
# How the command line ends

A use of the program ends with a code: 0 if it did what it was asked for, 1 if it could
not, 2 if the arguments are wrong. Of a failure the outermost cause is told on one line.
-/

namespace TrustMesh

/-- How a use of the program ends: its code, what it prints, and what it says of a failure. -/
structure Ending where
  code : Nat
  printed : String
  error : Option String
deriving DecidableEq

namespace Ending

/-- The first line of a text. -/
def firstLine (s : String) : String := String.ofList (s.toList.takeWhile (· ≠ '\n'))

/-- How the program ends for these arguments. -/
def ofArguments (limit : Nat) (ids : Nat → MessageId) (files : Files) (arguments : List String) :
    Ending :=
  match Invocation.ofArguments arguments with
  | .error .help => ⟨0, "", none⟩
  | .error .misuse => ⟨2, "", none⟩
  | .ok invocation =>
    match invocation.run limit ids files with
    | .ok printed => ⟨0, printed, none⟩
    | .error failure => ⟨1, "", some (firstLine failure.cause.message)⟩

end Ending

end TrustMesh
