/-!
# Finite binary64 values

A finite binary64 value is `± significand · 2 ^ exponent` in its one canonical
form: 53 bits of significand, the top one set unless the exponent is the least.
All arithmetic here is exact on natural numbers followed by one rounding to the
nearest value, ties to the even significand (`Binary64.ofRatio?`).

`Binary64.ofDecimal?` is the reading rule of decimal texts: the digits, at most
`2 ^ 64 - 1`, are rounded first and then scaled by rounded powers of ten, so a
result may differ from the nearest value in its last place.
-/

namespace TrustMesh

/-- A finite binary64 value `± significand · 2 ^ exponent` in canonical form. -/
structure Binary64 where
  negative : Bool
  significand : Nat
  exponent : Int
  significand_lt : significand < Nat.pow 2 53
  exponent_bounds : -1074 ≤ exponent ∧ exponent ≤ 971
  normal_or_least : Nat.pow 2 52 ≤ significand ∨ exponent = -1074
deriving DecidableEq

namespace Binary64

/-- The value with these parts, if they are canonical. -/
def ofParts? (negative : Bool) (significand : Nat) (exponent : Int) : Option Binary64 :=
  if canonical : significand < Nat.pow 2 53 ∧ (-1074 ≤ exponent ∧ exponent ≤ 971) ∧
      (Nat.pow 2 52 ≤ significand ∨ exponent = -1074) then
    some ⟨negative, significand, exponent, canonical.1, canonical.2.1, canonical.2.2⟩
  else none

/-- Zero with the given sign. -/
def zero (negative : Bool) : Binary64 :=
  ⟨negative, 0, -1074, by decide, by decide, by decide⟩

/-- Whether the value is zero of either sign. -/
def isZero (x : Binary64) : Bool := x.significand = 0

/-- The same magnitude with the other sign. -/
def negate (x : Binary64) : Binary64 := { x with negative := !x.negative }

/-- `num / den` to the nearest integer, a half to the even one. -/
def divideToEven (num den : Nat) : Nat :=
  let quotient := num / den
  let twice := 2 * (num % den)
  if twice < den then quotient
  else if den < twice then quotient + 1
  else quotient + quotient % 2

/-- The exponent at which `num / den` has 53 significant bits, but at least the least exponent. -/
def exponentFor (num den : Nat) : Int :=
  let guess : Int := (num.log2 : Int) - den.log2 - 53
  let fits (e : Int) : Bool :=
    num * Nat.pow 2 (-e).toNat < Nat.pow 2 53 * (den * Nat.pow 2 e.toNat)
  max (if fits guess then guess else guess + 1) (-1074)

/-- The value nearest to `± num / den`, ties to the even significand; none if it is too large. -/
def ofRatio? (negative : Bool) (num den : Nat) : Option Binary64 :=
  if num = 0 then some (zero negative)
  else
    let e := exponentFor num den
    let m := divideToEven (num * Nat.pow 2 (-e).toNat) (den * Nat.pow 2 e.toNat)
    if m = Nat.pow 2 53 then ofParts? negative (Nat.pow 2 52) (e + 1) else ofParts? negative m e

/-- The magnitude as a ratio of natural numbers. -/
def ratio (x : Binary64) : Nat × Nat :=
  (x.significand * Nat.pow 2 x.exponent.toNat, Nat.pow 2 (-x.exponent).toNat)

/-- Rounded product; none if it is too large. -/
def mul? (x y : Binary64) : Option Binary64 :=
  let (a, b) := x.ratio
  let (c, d) := y.ratio
  ofRatio? (x.negative != y.negative) (a * c) (b * d)

/-- Rounded quotient; none if it is too large or the divisor is zero. -/
def div? (x y : Binary64) : Option Binary64 :=
  let (a, b) := x.ratio
  let (c, d) := y.ratio
  if c = 0 then none else ofRatio? (x.negative != y.negative) (a * d) (b * c)

/-- The rounded power of ten; powers above `308` are too large. -/
def powerOfTen? (exponent : Nat) : Option Binary64 := ofRatio? false (Nat.pow 10 exponent) 1

/-- Largest power of ten that is a binary64 value. -/
def largestPower : Nat := 308

/-- `x / 10 ^ places`, one rounded division for each `308` places. -/
def shrink? (x : Binary64) (places : Nat) : Option Binary64 :=
  if x.isZero then some x
  else if places ≤ largestPower then (powerOfTen? places).bind x.div?
  else do
    let y ← (powerOfTen? largestPower).bind x.div?
    y.shrink? (places - largestPower)
termination_by places
decreasing_by simp [largestPower] at *; omega

/-- The value read for `± digits · 10 ^ exponent`; none if it is too large. -/
def ofDecimal? (negative : Bool) (digits : Nat) (exponent : Int) : Option Binary64 := do
  let x ← ofRatio? false digits 1
  let y ←
    if exponent < 0 then x.shrink? (-exponent).toNat
    else if x.isZero then some x
    else if largestPower < exponent.toNat then none
    else (powerOfTen? exponent.toNat).bind x.mul?
  return if negative then y.negate else y

end Binary64

end TrustMesh
