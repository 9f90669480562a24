/-!
# Hexadecimal digits

Digits are read in either case and written in lower case, so a digit that is written
reads back as itself (`hexValue?_hexChar`).
-/

namespace TrustMesh.Text

/-- The lowest digit of a number. -/
def lowDigit (n : Nat) : Fin 16 := ⟨n % 16, Nat.mod_lt n (by decide)⟩

/-- The value of a hexadecimal digit of either case. -/
def hexValue? (c : Char) : Option (Fin 16) :=
  if '0' ≤ c ∧ c ≤ '9' then some (lowDigit (c.toNat - '0'.toNat))
  else if 'a' ≤ c ∧ c ≤ 'f' then some (lowDigit (c.toNat - 'a'.toNat + 10))
  else if 'A' ≤ c ∧ c ≤ 'F' then some (lowDigit (c.toNat - 'A'.toNat + 10))
  else none

/-- The lower-case digit of a value. -/
def hexChar (digit : Fin 16) : Char := Nat.digitChar digit

/-- A written digit reads back as its value. -/
theorem hexValue?_hexChar (digit : Fin 16) : hexValue? (hexChar digit) = some digit := by
  revert digit; decide

/-- The two digits of a byte. -/
def hexPair (byte : UInt8) : List Char :=
  [hexChar (lowDigit (byte.toNat / 16)), hexChar (lowDigit byte.toNat)]

/-- The bytes that a list of pairs of digits stands for. -/
def unhex? : List Char → Option (List UInt8)
  | [] => some []
  | [_] => none
  | high :: low :: rest => do
    let byte := (← hexValue? high).val * 16 + (← hexValue? low).val
    return byte.toUInt8 :: (← unhex? rest)

end TrustMesh.Text
