import TrustMesh.Json.Term
import TrustMesh.Text.Hex

/-!
# Reading JSON texts

`Term.read` takes a text apart. It accepts strict JSON: no trailing commas, no
comments, no control characters inside strings, at most `maximalDepth` containers
open at once. Where the text stops being JSON the term says `broken`; nothing after
that place is looked at.

The functions recurse on a number of steps that the length of the text bounds.
-/

namespace TrustMesh

/-- A text after the JSON value it starts with: the value's term, and the text that follows it
unless the value broke off. -/
structure Reading where
  term : Term
  rest : Option (List Char)

/-- How many containers may be open at once. -/
def maximalDepth : Nat := 127

namespace Term

/-- The four blank characters of JSON. -/
def isBlank (c : Char) : Bool := c = ' ' || c = '\n' || c = '\t' || c = '\r'

/-- The text from its first character that is not blank. -/
def skipBlanks (cs : List Char) : List Char := cs.dropWhile isBlank

/-! ## Strings -/

/-- One element of a string as it is written: a character, or a code unit of 16 bits given by
its number. -/
inductive StringPart where
  | char (value : Char)
  | unit (value : Nat)

/-- The character that a backslash and `c` stand for. -/
def escaped? (c : Char) : Option Char :=
  if c = '"' then some '"'
  else if c = '\\' then some '\\'
  else if c = '/' then some '/'
  else if c = 'b' then some '\x08'
  else if c = 'f' then some '\x0c'
  else if c = 'n' then some '\n'
  else if c = 'r' then some '\r'
  else if c = 't' then some '\t'
  else none

/-- The parts of a string up to its closing quote, and the text after it. -/
def stringParts : List Char → Option (List StringPart × List Char)
  | [] => none
  | '"' :: rest => some ([], rest)
  | '\\' :: 'u' :: a :: b :: c :: d :: rest => do
    let unit := (← Text.hexValue? a).val * 4096 + (← Text.hexValue? b).val * 256 +
      (← Text.hexValue? c).val * 16 + (← Text.hexValue? d).val
    let (parts, after) ← stringParts rest
    return (.unit unit :: parts, after)
  | '\\' :: c :: rest => do
    let value ← escaped? c
    let (parts, after) ← stringParts rest
    return (.char value :: parts, after)
  | c :: rest =>
    if c.toNat < 0x20 ∨ c = '\\' then none
    else do
      let (parts, after) ← stringParts rest
      return (.char c :: parts, after)

/-- The characters of a string; a pair of surrogates is one character, a lone one is none. -/
def joinParts : List StringPart → Option (List Char)
  | [] => some []
  | .char c :: rest => (joinParts rest).map (c :: ·)
  | .unit high :: rest =>
    if 0xD800 ≤ high ∧ high ≤ 0xDBFF then
      match rest with
      | .unit low :: rest =>
        if 0xDC00 ≤ low ∧ low ≤ 0xDFFF then
          (joinParts rest).map
            (Char.ofNat (0x10000 + (high - 0xD800) * 0x400 + (low - 0xDC00)) :: ·)
        else none
      | _ => none
    else if 0xDC00 ≤ high ∧ high ≤ 0xDFFF then none
    else (joinParts rest).map (Char.ofNat high :: ·)

/-- The string that starts after an opening quote. -/
def readString (cs : List Char) : Reading :=
  match stringParts cs with
  | none => ⟨.broken, none⟩
  | some (parts, rest) =>
    match joinParts parts with
    | some value => ⟨.text (String.ofList value), some rest⟩
    | none => ⟨.unreadable, some rest⟩

/-! ## Numbers -/

/-- The largest significand that is kept while digits are read. -/
def significandLimit : Nat := Nat.pow 2 64

/-- Digits read so far: `value · 10 ^ exponent`. Once the value is full, further digits of the
integer part, or of the fraction, are dropped. -/
structure Significand where
  value : Nat
  exponent : Int
  full : Bool

/-- Append a digit before the decimal point. A dropped digit scales the value. -/
def Significand.appendInteger (s : Significand) (digit : Nat) : Significand :=
  if s.full ∨ significandLimit ≤ s.value * 10 + digit then
    { s with exponent := s.exponent + 1, full := true }
  else { s with value := s.value * 10 + digit }

/-- Append a digit after the decimal point. A dropped digit changes nothing. -/
def Significand.appendFraction (s : Significand) (digit : Nat) : Significand :=
  if s.full ∨ significandLimit ≤ s.value * 10 + digit then { s with full := true }
  else { s with value := s.value * 10 + digit, exponent := s.exponent - 1 }

/-- The value of a decimal digit. -/
def digitValue (c : Char) : Nat := c.toNat - '0'.toNat

/-- The digits at the start of a text, and the text after them. -/
def spanDigits (cs : List Char) : List Char × List Char := cs.span Char.isDigit

/-- The greatest decimal exponent that is told apart from an infinite one. -/
def exponentLimit : Nat := Nat.pow 2 31 - 1

/-- The number a natural number of digits with a sign stands for, when it has no fraction and no
exponent. Values outside the 64-bit integers, and minus zero, are binary values. -/
def wholeNumber? (negative : Bool) (s : Significand) : Option Number :=
  if s.full then (Binary64.ofDecimal? negative s.value s.exponent).map .binary
  else if negative then
    if 0 < s.value ∧ s.value ≤ Nat.pow 2 63 then some (.integer (-s.value))
    else (Binary64.ofDecimal? true s.value 0).map .binary
  else some (.integer s.value)

/-- The number with a fraction or an exponent. An exponent beyond the limit makes it zero or too
large. -/
def fractionNumber? (negative : Bool) (s : Significand) (exponentNegative : Bool)
    (exponent : Nat) : Option Number :=
  if exponentLimit < exponent then
    if s.value ≠ 0 ∧ !exponentNegative then none else some (.binary (Binary64.zero negative))
  else
    let signed : Int := if exponentNegative then -exponent else exponent
    (Binary64.ofDecimal? negative s.value (s.exponent + signed)).map .binary

/-- The term of a number if it is in range. -/
def ofNumber? : Option Number → Term
  | some n => .number n
  | none => .unreadable

/-- The exponent at the start of a text: its sign, its digits, and the text after it. -/
def spanExponent (cs : List Char) : Bool × List Char × List Char :=
  match cs with
  | '+' :: rest => (false, spanDigits rest)
  | '-' :: rest => (true, spanDigits rest)
  | _ => (false, spanDigits cs)

/-- The value of a list of decimal digits. -/
def digitsValue (digits : List Char) : Nat :=
  digits.foldl (fun n c => n * 10 + digitValue c) 0

/-- Continue a number after its integer and fraction digits. -/
def readExponent (negative : Bool) (s : Significand) (fraction : Bool) (cs : List Char) :
    Reading :=
  match cs with
  | e :: rest =>
    if e = 'e' ∨ e = 'E' then
      match spanExponent rest with
      | (_, [], _) => ⟨.broken, none⟩
      | (exponentNegative, digits, after) =>
        ⟨ofNumber? (fractionNumber? negative s exponentNegative (digitsValue digits)), some after⟩
    else if fraction then ⟨ofNumber? (fractionNumber? negative s false 0), some cs⟩
    else ⟨ofNumber? (wholeNumber? negative s), some cs⟩
  | [] =>
    if fraction then ⟨ofNumber? (fractionNumber? negative s false 0), some cs⟩
    else ⟨ofNumber? (wholeNumber? negative s), some cs⟩

/-- The number that starts after an optional minus sign. -/
def readNumber (negative : Bool) (cs : List Char) : Reading :=
  match spanDigits cs with
  | ([], _) => ⟨.broken, none⟩
  | ('0' :: _ :: _, _) => ⟨.broken, none⟩
  | (digits, rest) =>
    let whole : Significand := digits.foldl (fun s c => s.appendInteger (digitValue c)) ⟨0, 0, false⟩
    match rest with
    | '.' :: rest =>
      match spanDigits rest with
      | ([], _) => ⟨.broken, none⟩
      | (places, after) =>
        let start : Significand := { whole with full := false }
        readExponent negative (places.foldl (fun s c => s.appendFraction (digitValue c)) start)
          true after
    | _ => readExponent negative whole false rest

/-! ## Containers -/

/-- A container at its place: one nested too deeply cannot be read. -/
def atDepth (depth : Nat) (term : Term) : Term :=
  if depth < maximalDepth then term
  else if term.wellFormed then .unreadable
  else .broken

mutual

/-- The value at the start of a text in which `depth` containers are open. -/
def readValue : Nat → Nat → List Char → Reading
  | 0, _, _ => ⟨.broken, none⟩
  | steps + 1, depth, cs =>
    match skipBlanks cs with
    | 'n' :: 'u' :: 'l' :: 'l' :: rest => ⟨.null, some rest⟩
    | 't' :: 'r' :: 'u' :: 'e' :: rest => ⟨.bool true, some rest⟩
    | 'f' :: 'a' :: 'l' :: 's' :: 'e' :: rest => ⟨.bool false, some rest⟩
    | '"' :: rest => readString rest
    | '-' :: rest => readNumber true rest
    | '[' :: rest =>
      match skipBlanks rest with
      | ']' :: rest => ⟨atDepth depth (.array []), some rest⟩
      | _ =>
        let (items, after) := readItems steps (depth + 1) rest
        ⟨atDepth depth (.array items), after⟩
    | '{' :: rest =>
      match skipBlanks rest with
      | '}' :: rest => ⟨atDepth depth (.object []), some rest⟩
      | _ =>
        let (members, after) := readMembers steps (depth + 1) rest
        ⟨atDepth depth (.object members), after⟩
    | c :: rest => if c.isDigit then readNumber false (c :: rest) else ⟨.broken, none⟩
    | [] => ⟨.broken, none⟩

/-- One item or more, and the text after the closing bracket. -/
def readItems : Nat → Nat → List Char → List Term × Option (List Char)
  | 0, _, _ => ([.broken], none)
  | steps + 1, depth, cs =>
    match readValue steps depth cs with
    | ⟨item, none⟩ => ([item], none)
    | ⟨item, some rest⟩ =>
      match skipBlanks rest with
      | ']' :: rest => ([item], some rest)
      | ',' :: rest =>
        let (items, after) := readItems steps depth rest
        (item :: items, after)
      | _ => ([item, .broken], none)

/-- One member or more, and the text after the closing brace. -/
def readMembers : Nat → Nat → List Char → List (Term × Term) × Option (List Char)
  | 0, _, _ => ([(.broken, .broken)], none)
  | steps + 1, depth, cs =>
    match skipBlanks cs with
    | '"' :: rest =>
      match readString rest with
      | ⟨key, none⟩ => ([(key, .broken)], none)
      | ⟨key, some rest⟩ =>
        match skipBlanks rest with
        | ':' :: rest =>
          match readValue steps depth rest with
          | ⟨value, none⟩ => ([(key, value)], none)
          | ⟨value, some rest⟩ =>
            match skipBlanks rest with
            | '}' :: rest => ([(key, value)], some rest)
            | ',' :: rest =>
              let (members, after) := readMembers steps depth rest
              ((key, value) :: members, after)
            | _ => ([(key, value), (.broken, .broken)], none)
        | _ => ([(key, .broken)], none)
    | other => ([((readValue steps depth other).term, .broken)], none)

end

end Term

/-- A whole text taken apart: the term of its value, and whether only blanks follow it. -/
structure TextTerm where
  term : Term
  ends : Bool

/-- Take a text apart. -/
def Term.read (cs : List Char) : TextTerm :=
  match Term.readValue (2 * cs.length + 1) 0 cs with
  | ⟨term, some rest⟩ => ⟨term, (skipBlanks rest).isEmpty⟩
  | ⟨term, none⟩ => ⟨term, false⟩

/-- The value of a text that is JSON. -/
def Json.parse? (text : String) : Option Json :=
  match Term.read text.toList with
  | ⟨term, ends⟩ => if ends && term.readable then some term.toJson else none

end TrustMesh
