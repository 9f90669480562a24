import TrustMesh.Decimal.Binary64

/-!
# Shortest decimal text of a binary64 value

The digits of a value are the fewest that lie in its rounding interval, the real
numbers to which it is the nearest binary64 value. Of several candidates with
that many digits the one nearest to the value is taken, of two equally near ones
the even one. Both neighbours of the value on the decimal grid of each length are
tested in exact arithmetic.

`Binary64.text` writes them positionally from `10 ^ -5` up to `10 ^ 16`, always
with a fraction, and with an exponent otherwise.
-/

namespace TrustMesh

/-- The decimal `digits · 10 ^ exponent`. -/
structure Decimal where
  digits : Nat
  exponent : Int
deriving DecidableEq

namespace Binary64

/-- Four times the magnitude, and four times the ends of the rounding interval, over one common
power of two: `(scale, low, value, high)`. Below a power of two the gap is half as wide. -/
def interval (x : Binary64) : Int × Nat × Nat × Nat :=
  let m := x.significand
  let low := if m = Nat.pow 2 52 ∧ x.exponent ≠ -1074 then 4 * m - 1 else 4 * m - 2
  (x.exponent - 2, low, 4 * m, 4 * m + 2)

/-- `value · 2 ^ scale / 10 ^ place` as a ratio. -/
def gridRatio (value : Nat) (scale place : Int) : Nat × Nat :=
  (value * Nat.pow 2 scale.toNat * Nat.pow 10 (-place).toNat,
    Nat.pow 2 (-scale).toNat * Nat.pow 10 place.toNat)

/-- Whether `candidate · 10 ^ place` rounds to the value. The ends of the interval belong to it
if the significand is even. -/
def roundsTo (x : Binary64) (place : Int) (candidate : Nat) : Bool :=
  let (scale, low, _, high) := x.interval
  let (lowNum, den) := gridRatio low scale place
  let (highNum, _) := gridRatio high scale place
  if x.significand % 2 = 0 then
    lowNum ≤ candidate * den && candidate * den ≤ highNum
  else lowNum < candidate * den && candidate * den < highNum

/-- The better of the two neighbours of the value on the grid of multiples of `10 ^ place`. -/
def nearestOnGrid? (x : Binary64) (place : Int) : Option Nat :=
  let (scale, _, value, _) := x.interval
  let (num, den) := gridRatio value scale place
  let below := num / den
  match x.roundsTo place below, x.roundsTo place (below + 1) with
  | true, true => some (divideToEven num den)
  | true, false => some below
  | false, true => some (below + 1)
  | false, false => none

/-- The first hit on the grids `10 ^ place`, `10 ^ (place - 1)` and so on. -/
def firstHit? (x : Binary64) : Nat → Int → Option Decimal
  | 0, _ => none
  | tries + 1, place =>
    match x.nearestOnGrid? place with
    | some digits => some ⟨digits, place⟩
    | none => x.firstHit? tries (place - 1)

/-- A power of ten above the magnitude of the value. -/
def magnitudeBound (x : Binary64) : Int :=
  let bits : Int := x.significand.log2 + 1 + x.exponent
  if 0 ≤ bits then bits * 30103 / 100000 + 1 else -(-bits * 30102 / 100000) + 1

/-- Drop the zeros at the end of the digits. -/
def dropZeros : Nat → Decimal → Decimal
  | 0, d => d
  | steps + 1, d =>
    if d.digits ≠ 0 ∧ d.digits % 10 = 0 then dropZeros steps ⟨d.digits / 10, d.exponent + 1⟩ else d

/-- The fewest digits that read back as the value. -/
def shortest (x : Binary64) : Decimal :=
  if x.isZero then ⟨0, 0⟩
  else dropZeros 20 ((x.firstHit? 24 x.magnitudeBound).getD ⟨0, 0⟩)

/-- Digits of a natural number, most significant first. -/
def digitsOf (n : Nat) : List Char := Nat.toDigits 10 n

/-- Where positional notation ends: the least and the first too large decimal magnitude. -/
structure Positional where
  least : Int
  bound : Int

/-- Numbers are positional from `10 ^ -5` up to `10 ^ 16`. -/
def positional : Positional := ⟨-5, 16⟩

/-- The text of a value: the fewest digits, positional with at least one place in the range
`positional`, otherwise with one digit before the point and a signed exponent. -/
def text (x : Binary64) : List Char :=
  let d := x.shortest
  let digits := digitsOf d.digits
  let count : Int := digits.length
  -- the value lies in `[10 ^ magnitude, 10 ^ (magnitude + 1))`
  let magnitude := count + d.exponent - 1
  let body :=
    if x.isZero then ['0', '.', '0']
    else if magnitude < positional.least ∨ positional.bound ≤ magnitude then
      let fraction := match digits.drop 1 with
        | [] => []
        | rest => '.' :: rest
      let sign := if magnitude < 0 then ['-'] else ['+']
      digits.take 1 ++ fraction ++ 'e' :: sign ++ digitsOf magnitude.natAbs
    else if 0 ≤ d.exponent then
      digits ++ List.replicate d.exponent.toNat '0' ++ ['.', '0']
    else if 0 ≤ magnitude then
      digits.take (magnitude.toNat + 1) ++ '.' :: digits.drop (magnitude.toNat + 1)
    else
      ['0', '.'] ++ List.replicate (-magnitude - 1).toNat '0' ++ digits
  if x.negative then '-' :: body else body

end Binary64

end TrustMesh
