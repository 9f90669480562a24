import TrustMesh.Tool.Ending

/-!
# The command line

Reads the files that the arguments name and prints the ending. All that is decided is
decided in `Ending.ofArguments`.
-/

namespace TrustMesh

/-- The fault of a system error. -/
def ReadFault.ofError : IO.Error → ReadFault
  | .noFileOrDirectory .. => .notFound
  | .inappropriateType _ code details =>
    if code = 21 then .isDirectory
    else if code = 20 then .notDirectory
    else .other s!"{details} (os error {code})"
  | error => .other (toString error)

/-- The content of a file. -/
def readFile (path : String) : IO (Except ReadFault (List UInt8)) := do
  try
    let bytes ← IO.FS.readBinFile path
    return .ok bytes.toList
  catch error => return .error (.ofError error)

/-- The files that the arguments name. -/
def readFiles (arguments : List String) : IO Files := do
  match Invocation.ofArguments arguments with
  | .error _ => return fun _ => .error .notFound
  | .ok invocation =>
    let contents ← invocation.paths.mapM fun path => return (path, ← readFile path)
    return fun path => (contents.lookup path).getD (.error .notFound)

/-- How many turns a simulation may take. -/
def turnLimit : Nat := Nat.pow 10 12

/-- Run the command line. -/
def runArguments (arguments : List String) : IO UInt32 := do
  let seed ← IO.rand 0 (Nat.pow 2 62)
  let files ← readFiles arguments
  let ending := Ending.ofArguments turnLimit (fun n => .ofNat (seed + n)) files arguments
  IO.print ending.printed
  if let some error := ending.error then IO.eprintln s!"Error: {error}"
  return ending.code.toUInt32

end TrustMesh

/-- The program. -/
def main (arguments : List String) : IO UInt32 := TrustMesh.runArguments arguments
