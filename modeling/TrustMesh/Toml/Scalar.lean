import TrustMesh.Decimal.Binary64
import TrustMesh.Text.Hex
import TrustMesh.Toml.Basic

/-!
# Numbers, truth values and dates

A scalar is written as one word. Underscores may stand between two digits. Integers have
64 bits and a sign; those with a radix have none. Decimal integers and the integer parts
of fractions do not start with a zero unless they are zero. A fraction that is too large
is refused.

Dates are those of the calendar, and a minute may have 61 seconds. A date and a time are
joined by the letter T or by one space.
-/

namespace TrustMesh.Toml

/-! ## Digits -/

/-- The digits of a text in which underscores stand between digits. -/
def digitsAfter? (isDigit : Char → Bool) : List Char → Option (List Char)
  | [] => some []
  | '_' :: c :: rest => if isDigit c then (digitsAfter? isDigit rest).map (c :: ·) else none
  | c :: rest => if isDigit c then (digitsAfter? isDigit rest).map (c :: ·) else none

/-- The digits of a text that starts with a digit. -/
def digits? (isDigit : Char → Bool) : List Char → Option (List Char)
  | [] => none
  | c :: rest => if isDigit c then (digitsAfter? isDigit rest).map (c :: ·) else none

/-- The digits of a decimal integer. -/
def decimalDigits? (cs : List Char) : Option (List Char) := do
  let digits ← digits? Char.isDigit cs
  if 1 < digits.length ∧ digits.head? = some '0' then none else some digits

/-- The value of a list of digits. -/
def digitsValue (radix : Nat) (digits : List Char) : Nat :=
  digits.foldl (fun n c => n * radix + ((Text.hexValue? c).map Fin.val).getD 0) 0

/-- Whether a text starts with a minus sign, and the text after its sign. -/
def splitSign : List Char → Bool × List Char
  | '+' :: rest => (false, rest)
  | '-' :: rest => (true, rest)
  | cs => (false, cs)

/-! ## Numbers -/

/-- An integer of 64 bits. -/
def integerInRange? (value : Int) : Option Toml :=
  if -(Int.pow 2 63) ≤ value ∧ value < Int.pow 2 63 then some (.integer value) else none

/-- The integer that a word writes with a radix. -/
def radixInteger? (radix : Nat) (cs : List Char) : Option Toml := do
  let isDigit (c : Char) : Bool := (Text.hexValue? c).any (·.val < radix)
  integerInRange? (digitsValue radix (← digits? isDigit cs))

/-- The integer that a word writes. -/
def integer? : List Char → Option Toml
  | '0' :: 'x' :: rest => radixInteger? 16 rest
  | '0' :: 'o' :: rest => radixInteger? 8 rest
  | '0' :: 'b' :: rest => radixInteger? 2 rest
  | cs => do
    let (negative, rest) := splitSign cs
    let value : Int := digitsValue 10 (← decimalDigits? rest)
    integerInRange? (if negative then -value else value)

/-- Whether `± digits · 10 ^ exponent` is too large for a binary64 value. -/
def tooLarge (digits : List Char) (exponent : Int) : Bool :=
  let significant := digits.dropWhile (· = '0')
  let magnitude : Int := significant.length + exponent
  if significant.isEmpty ∨ magnitude < 309 then false
  else if 309 < magnitude then true
  else
    (Binary64.ofRatio? false (digitsValue 10 significant * Nat.pow 10 exponent.toNat)
      (Nat.pow 10 (-exponent).toNat)).isNone

/-- The exponent that a word ends with; none is zero. -/
def exponent? : List Char → Option Int
  | [] => some 0
  | e :: rest => do
    let (negative, rest) := splitSign rest
    let value : Int := digitsValue 10 (← digits? Char.isDigit rest)
    if e = 'e' ∨ e = 'E' then some (if negative then -value else value) else none

/-- The places after the decimal point, and the text after them. -/
def places? : List Char → Option (List Char × List Char)
  | '.' :: rest => do
    let (places, rest) := rest.span fun c => c.isDigit || c = '_'
    return (← digits? Char.isDigit places, rest)
  | cs => some ([], cs)

/-- The fraction that a word writes. It has decimal places or an exponent. -/
def fraction? (cs : List Char) : Option Toml := do
  let (negative, rest) := splitSign cs
  let written := Toml.fraction (String.ofList cs)
  if rest = ['i', 'n', 'f'] ∨ rest = ['n', 'a', 'n'] then some written
  else
    let (whole, rest) := rest.span fun c => c.isDigit || c = '_'
    let digits ← decimalDigits? whole
    let (places, after) ← places? rest
    let exponent ← exponent? after
    if rest.isEmpty || !negative && tooLarge (digits ++ places) (exponent - places.length) then none
    else some written

/-! ## Dates -/

/-- The number that two digits write, and the text after them. -/
def twoDigits? : List Char → Option (Nat × List Char)
  | a :: b :: rest =>
    if a.isDigit && b.isDigit then some (digitsValue 10 [a, b], rest) else none
  | _ => none

/-- The text after a character. -/
def after? (c : Char) : List Char → Option (List Char)
  | d :: rest => if c = d then some rest else none
  | [] => none

/-- Whether a year has a 29th of February. -/
def isLeapYear (year : Nat) : Bool := year % 4 = 0 && (year % 100 ≠ 0 || year % 400 = 0)

/-- How many days a month has. -/
def daysIn (year month : Nat) : Nat :=
  if month = 2 then if isLeapYear year then 29 else 28
  else if month ∈ [4, 6, 9, 11] then 30
  else 31

/-- The text after a date. -/
def date? (cs : List Char) : Option (List Char) := do
  let (century, rest) ← twoDigits? cs
  let (year, rest) ← twoDigits? rest
  let (month, rest) ← twoDigits? (← after? '-' rest)
  let (day, rest) ← twoDigits? (← after? '-' rest)
  if 1 ≤ month ∧ month ≤ 12 ∧ 1 ≤ day ∧ day ≤ daysIn (century * 100 + year) month then some rest
  else none

/-- The text after hours and minutes. -/
def minutes? (cs : List Char) : Option (List Char) := do
  let (hour, rest) ← twoDigits? cs
  let (minute, rest) ← twoDigits? (← after? ':' rest)
  if hour ≤ 23 ∧ minute ≤ 59 then some rest else none

/-- The text after a time of the day. -/
def time? (cs : List Char) : Option (List Char) := do
  let (second, rest) ← twoDigits? (← after? ':' (← minutes? cs))
  if 60 < second then none
  else
    match rest with
    | '.' :: c :: rest => if c.isDigit then some (rest.dropWhile Char.isDigit) else none
    | rest => some rest

/-- Whether a text is the distance of a time zone, or nothing. -/
def isZone : List Char → Bool
  | [] => true
  | c :: rest =>
    ((c = 'Z' || c = 'z') && rest.isEmpty) || ((c = '+' || c = '-') && minutes? rest = some [])

/-- Whether a text is a date, a time, or both. -/
def isDateTime (cs : List Char) : Bool :=
  match date? cs with
  | some [] => true
  | some (c :: rest) => (c = 'T' || c = 't' || c = ' ') && (time? rest).any isZone
  | none => time? cs = some []

/-! ## Words -/

/-- The characters of a word. -/
def isWord (c : Char) : Bool := c.isAlphanum || c ∈ ['+', '-', '_', '.', ':']

/-- The value that a word writes. -/
def ofWord? (cs : List Char) : Option Toml :=
  if cs = ['t', 'r', 'u', 'e'] then some (.boolean true)
  else if cs = ['f', 'a', 'l', 's', 'e'] then some (.boolean false)
  else if isDateTime cs then some (.dateTime (String.ofList cs))
  else (integer? cs).or (fraction? cs)

/-- The word that a text starts with, and the text after it. A digit that follows a date and one
space continues the word. -/
def splitWord (cs : List Char) : List Char × List Char :=
  match cs.span isWord with
  | (word, ' ' :: c :: rest) =>
    if c.isDigit && date? word = some [] then
      let (more, after) := (c :: rest).span isWord
      (word ++ ' ' :: more, after)
    else (word, ' ' :: c :: rest)
  | (word, rest) => (word, rest)

/-- The scalar that a text starts with, and the text after it. -/
def readScalar? (cs : List Char) : Option (Toml × List Char) :=
  let (word, rest) := splitWord cs
  (ofWord? word).map (·, rest)

end TrustMesh.Toml
