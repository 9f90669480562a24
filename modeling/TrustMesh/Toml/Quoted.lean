import TrustMesh.Text.Hex
import TrustMesh.Toml.Spacing

/-!
# Strings and keys

A string stands in double quotes, where a backslash starts an escape, or in single
quotes, where it does not. Three quotes open a string of several lines: a line end that
follows at once is dropped, line ends read as line feeds, and in double quotes a
backslash at the end of a line joins the line with the next text. The string ends at the
next three quotes; up to two more that follow them belong to it.

A key is a sequence of bare or quoted parts with dots between them.
-/

namespace TrustMesh.Toml

/-! ## Strings -/

/-- If the text starts with the closing quotes of a string: the quotes before them that belong to
the string, and the text after them. -/
def closing? (quote : Char) (lines : Bool) (cs : List Char) : Option (List Char × List Char) :=
  if lines then
    let quotes := (cs.takeWhile (· = quote)).length
    if quotes < 3 then none
    else some (List.replicate (min (quotes - 3) 2) quote, cs.drop (min quotes 5))
  else
    match cs with
    | c :: rest => if c = quote then some ([], rest) else none
    | [] => none

/-- The character that a backslash and `c` stand for. -/
def escaped? (c : Char) : Option Char :=
  if c = 'b' then some '\x08'
  else if c = 't' then some '\t'
  else if c = 'n' then some '\n'
  else if c = 'f' then some '\x0c'
  else if c = 'r' then some '\r'
  else if c = '"' then some '"'
  else if c = '\\' then some '\\'
  else none

/-- The character with the number that a list of hexadecimal digits writes. -/
def scalar? (digits : List Char) : Option Char := do
  let number ← digits.foldlM (fun n c => (Text.hexValue? c).map (n * 16 + ·.val)) 0
  if number.isValidChar then some (Char.ofNat number) else none

/-- Whether the text after a backslash is the end of a line. -/
def joinsLines (cs : List Char) : Bool := (newline? (skipBlanks cs)).isSome

/-- The characters of a string in double quotes, and the text after it. `joining` says whether the
text follows the end of a line that is joined with it. -/
def escapedBody (lines : Bool) : (joining : Bool) → List Char → Option (List Char × List Char)
  | _, [] => none
  | joining, c :: rest =>
    if joining && (isBlank c || c = '\n' || (c = '\r' && rest.head? = some '\n')) then
      escapedBody lines true rest
    else
      match closing? '"' lines (c :: rest) with
      | some ending => some ending
      | none =>
        match c, rest with
        | '\\', 'u' :: c₁ :: c₂ :: c₃ :: c₄ :: rest => do
          let value ← scalar? [c₁, c₂, c₃, c₄]
          let (body, after) ← escapedBody lines false rest
          return (value :: body, after)
        | '\\', 'U' :: c₁ :: c₂ :: c₃ :: c₄ :: c₅ :: c₆ :: c₇ :: c₈ :: rest => do
          let value ← scalar? [c₁, c₂, c₃, c₄, c₅, c₆, c₇, c₈]
          let (body, after) ← escapedBody lines false rest
          return (value :: body, after)
        | '\\', d :: rest =>
          if lines && joinsLines (d :: rest) then escapedBody lines true (d :: rest)
          else do
            let value ← escaped? d
            let (body, after) ← escapedBody lines false rest
            return (value :: body, after)
        | '\r', '\n' :: rest =>
          if lines then do
            let (body, after) ← escapedBody lines false rest
            return ('\n' :: body, after)
          else none
        | c, rest =>
          if c ≠ '\\' && (isTextual c || (lines && c = '\n')) then do
            let (body, after) ← escapedBody lines false rest
            return (c :: body, after)
          else none

/-- The characters of a string in single quotes, and the text after it. -/
def literalBody (lines : Bool) : List Char → Option (List Char × List Char)
  | [] => none
  | c :: rest =>
    match closing? '\'' lines (c :: rest) with
    | some ending => some ending
    | none =>
      match c, rest with
      | '\r', '\n' :: rest =>
        if lines then do
          let (body, after) ← literalBody lines rest
          return ('\n' :: body, after)
        else none
      | c, rest =>
        if isTextual c || (lines && c = '\n') then do
          let (body, after) ← literalBody lines rest
          return (c :: body, after)
        else none

/-- The text without the line end that it may start with. -/
def dropNewline (cs : List Char) : List Char := (newline? cs).getD cs

/-- The string that the text starts with, if it starts with a quote, and the text after it. -/
def readText? : List Char → Option (String × List Char)
  | '"' :: '"' :: '"' :: rest => asString (escapedBody true false (dropNewline rest))
  | '"' :: rest => asString (escapedBody false false rest)
  | '\'' :: '\'' :: '\'' :: rest => asString (literalBody true (dropNewline rest))
  | '\'' :: rest => asString (literalBody false rest)
  | _ => none
where
  /-- The string of a list of characters. -/
  asString : Option (List Char × List Char) → Option (String × List Char) :=
    Option.map fun (body, after) => (String.ofList body, after)

/-! ## Keys -/

/-- The characters of bare keys. -/
def isBare (c : Char) : Bool := c.isAlphanum || c = '_' || c = '-'

/-- One part of a key, and the text after it. -/
def readKeyPart? : List Char → Option (String × List Char)
  | '"' :: rest => readText?.asString (escapedBody false false rest)
  | '\'' :: rest => readText?.asString (literalBody false rest)
  | cs =>
    match cs.span isBare with
    | ([], _) => none
    | (part, rest) => some (String.ofList part, rest)

/-- How many parts a key may have. -/
def maximalKeyParts : Nat := 79

/-- A key of at most `limit` parts with the blanks around it, and the text after it. -/
def readKeyParts? : (limit : Nat) → List Char → Option (List String × List Char)
  | 0, _ => none
  | limit + 1, cs => do
    let (part, rest) ← readKeyPart? (skipBlanks cs)
    match skipBlanks rest with
    | '.' :: rest =>
      let (parts, after) ← readKeyParts? limit rest
      return (part :: parts, after)
    | after => return ([part], after)

/-- A key with the blanks around it, and the text after it. -/
def readKey? (cs : List Char) : Option (List String × List Char) :=
  readKeyParts? maximalKeyParts cs

end TrustMesh.Toml
