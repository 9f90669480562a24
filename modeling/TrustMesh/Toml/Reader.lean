import TrustMesh.Json.Record
import TrustMesh.Toml.Draft
import TrustMesh.Toml.Quoted
import TrustMesh.Toml.Scalar

/-!
# Reading TOML texts

`Toml.parse?` reads a text line by line (`Toml.readLines?`) and puts the lines together to
one table (`Toml.ofLines?`). A text that breaks any rule has no value; which rule it breaks
is not told.
-/

namespace TrustMesh.Toml

/-! ## Values -/

/-- How many arrays and inline tables may be open at once. -/
def maximalDepth : Nat := 79

/-- The items of an array after its opening bracket, and the text after the closing one. `read`
reads one item; the first argument bounds the number of items. -/
def readItems? (read : List Char → Option (Toml × List Char)) :
    Nat → List Char → Option (List Toml × List Char)
  | 0, _ => none
  | steps + 1, cs =>
    match skipLines false cs with
    | ']' :: rest => some ([], rest)
    | cs => do
      let (item, rest) ← read cs
      match skipLines false rest with
      | ',' :: rest =>
        let (items, after) ← readItems? read steps rest
        return (item :: items, after)
      | ']' :: rest => return ([item], rest)
      | _ => none

/-- A key with its value, and the text after them. -/
def readPair? (read : List Char → Option (Toml × List Char)) (cs : List Char) :
    Option ((List String × Toml) × List Char) := do
  let (key, rest) ← readKey? cs
  match rest with
  | '=' :: rest =>
    let (value, rest) ← read (skipBlanks rest)
    return ((key, value), rest)
  | _ => none

/-- One pair or more of an inline table, and the text after the closing brace. -/
def readPairs? (read : List Char → Option (Toml × List Char)) :
    Nat → List Char → Option (List (List String × Toml) × List Char)
  | 0, _ => none
  | steps + 1, cs => do
    let (pair, rest) ← readPair? read cs
    match skipBlanks rest with
    | ',' :: rest =>
      let (pairs, after) ← readPairs? read steps rest
      return (pair :: pairs, after)
    | '}' :: rest => return ([pair], rest)
    | _ => none

/-- The value that a text starts with, and the text after it. The first argument is the number of
arrays and inline tables that may still be opened. -/
def readValue? : (depth : Nat) → List Char → Option (Toml × List Char)
  | 0, '[' :: _ => none
  | 0, '{' :: _ => none
  | depth + 1, '[' :: rest => do
    let (items, after) ← readItems? (readValue? depth) (rest.length + 1) rest
    return (.array items, after)
  | depth + 1, '{' :: rest =>
    match skipBlanks rest with
    | '}' :: rest => some (.table [], rest)
    | rest => do
      let (pairs, after) ← readPairs? (readValue? depth) (rest.length + 1) rest
      return (← ofPairs? pairs, after)
  | _, '"' :: rest => (readText? ('"' :: rest)).map fun (value, after) => (.text value, after)
  | _, '\'' :: rest => (readText? ('\'' :: rest)).map fun (value, after) => (.text value, after)
  | _, cs => readScalar? cs

/-! ## Lines -/

/-- A line that says something: a key with its value, or a header that opens a table or the next
element of an array of tables. -/
inductive Line where
  | pair (key : List String) (value : Toml)
  | header (path : List String)
  | element (path : List String)

/-- A line, and the text after it. -/
def readLine? : List Char → Option (Line × List Char)
  | '[' :: '[' :: rest => do
    match ← readKey? rest with
    | (path, ']' :: ']' :: rest) => return (.element path, ← lineEnd? rest)
    | _ => none
  | '[' :: rest => do
    match ← readKey? rest with
    | (path, ']' :: rest) => return (.header path, ← lineEnd? rest)
    | _ => none
  | cs => do
    let ((key, value), rest) ← readPair? (readValue? maximalDepth) cs
    return (.pair key value, ← lineEnd? rest)

/-- The lines of a text, less those that are empty or hold only a comment. The first argument
bounds the number of lines. -/
def readLines? : Nat → List Char → Option (List Line)
  | 0, _ => none
  | steps + 1, cs =>
    if (skipBlanks cs).isEmpty then some []
    else
      match lineEnd? cs with
      | some rest => readLines? steps rest
      | none => do
        let (line, rest) ← readLine? (skipBlanks cs)
        return line :: (← readLines? steps rest)

/-! ## Texts -/

/-- A table in the making and the path of the header that is in force. -/
structure Assembly where
  path : List String
  members : List (String × Draft)

/-- Add a line. -/
def Assembly.add? (a : Assembly) : Line → Option Assembly
  | .pair key value => (Draft.within? (Draft.insert? value key) a.path a.members).map (⟨a.path, ·⟩)
  | .header path => (Draft.openTable? path a.members).map (⟨path, ·⟩)
  | .element path => (Draft.openElement? path a.members).map (⟨path, ·⟩)

/-- The table that a list of lines describes. -/
def ofLines? (lines : List Line) : Option Toml :=
  (lines.foldlM Assembly.add? ⟨[], []⟩).map fun a => .table (Draft.finishMembers a.members)

/-- The text without a mark of its encoding at the start. -/
def dropMark : List Char → List Char
  | '\uFEFF' :: rest => rest
  | cs => cs

/-- The table that a text describes. -/
def parse? (cs : List Char) : Option Toml :=
  (readLines? (cs.length + 1) (dropMark cs)).bind ofLines?

/-- Decode the table that a text describes. -/
def decode? {α : Type} (decode : Source → Term → Decoded α) (cs : List Char) : Option α :=
  match parse? cs with
  | none => none
  | some content =>
    match decode .configuration content.term with
    | .ok value => some value
    | .error _ => none

end TrustMesh.Toml
