import TrustMesh.Text.Utf8

/-!
# Files

The command line reads files by their paths. `Files` is what it sees of them; `FileTree`
gives the files below a working directory. A path is followed part by part: an empty part
and a dot stay, two dots lead to the parent, and only directories have anything below
them. Above the working directory nothing is known but the directories themselves.
-/

namespace TrustMesh

/-- Why a file cannot be read. -/
inductive ReadFault where
  | notFound
  | notDirectory
  | isDirectory
  | notText
  | other (reason : String)
deriving DecidableEq

/-- The wording of a fault. -/
def ReadFault.message : ReadFault → String
  | .notFound => "No such file or directory (os error 2)"
  | .notDirectory => "Not a directory (os error 20)"
  | .isDirectory => "Is a directory (os error 21)"
  | .notText => "stream did not contain valid UTF-8"
  | .other reason => reason

/-- The content of the file at a path. -/
abbrev Files := String → Except ReadFault (List UInt8)

namespace Files

/-- Whether a path leads to a file or a directory. -/
def present (files : Files) (path : String) : Bool :=
  match files path with
  | .ok _ => true
  | .error .notFound => false
  | .error .notDirectory => false
  | .error _ => true

/-- The text of a file. -/
def readText (files : Files) (path : String) : Except ReadFault (List Char) :=
  match files path with
  | .error fault => .error fault
  | .ok bytes =>
    match Utf8.decode? bytes with
    | some text => .ok text
    | none => .error .notText

end Files

/-- What a path leads to. -/
inductive FileEntry where
  | file (content : List UInt8)
  | directory

/-- The files below a working directory, each with the names that lead to it. -/
structure FileTree where
  files : List (List String × List UInt8)

namespace FileTree

/-- The parts of a path between its slashes. -/
def parts (path : String) : List String := path.splitOn "/"

/-- The tree of these files. -/
def ofFiles (files : List (String × List UInt8)) : FileTree :=
  ⟨files.map fun (path, content) => (parts path, content)⟩

/-- What a list of names leads to. -/
def entry? (tree : FileTree) (names : List String) : Option FileEntry :=
  match tree.files.find? (·.1 = names) with
  | some (_, content) => some (.file content)
  | none =>
    if names = [] ∨ tree.files.any (names.isPrefixOf ·.1) then some .directory else none

/-- Follow the parts of a path from the directory with these names, `above` levels above the working
directory. -/
def follow (tree : FileTree) : (above : Nat) → (names : List String) → (path : List String) →
    Except ReadFault FileEntry
  | 0, names, [] => (tree.entry? names).elim (.error .notFound) .ok
  | _ + 1, _, [] => .ok .directory
  | above, names, part :: rest =>
    match if above = 0 then tree.entry? names else some .directory with
    | none => .error .notFound
    | some (.file _) => .error .notDirectory
    | some .directory =>
      if part = "" ∨ part = "." then tree.follow above names rest
      else if part = ".." then
        if names = [] then tree.follow (above + 1) [] rest
        else tree.follow above names.dropLast rest
      else if above = 0 then tree.follow 0 (names ++ [part]) rest
      else .error .notFound

/-- The files of a tree by their paths. A path that starts with a slash is outside of the tree. -/
def read (tree : FileTree) : Files := fun path =>
  if path = "" then .error .notFound
  else
    match tree.follow (if path.startsWith "/" then 1 else 0) [] (parts path) with
    | .ok (.file content) => .ok content
    | .ok .directory => .error .isDirectory
    | .error fault => .error fault

end FileTree

end TrustMesh
