import Mathlib.Data.List.TakeDrop
import TrustMesh.Json.Printer
import TrustMesh.Json.Reader

/-!
# Numbers in JSON texts

A `Numeral` is a number as the grammar of JSON writes it. Whatever number is printed, the
characters are those of a numeral (`Json.exists_numeral`), and a numeral is read to its
end (`Numeral.readNumber_body`).

That a number is read as the number that was printed is not stated here. It holds of
integers of 64 bits; a binary value may differ in its last place.
-/

namespace TrustMesh

/-- What follows a value inside a text that was printed: its end, a separator or a closing
bracket. -/
def Closes (rest : List Char) : Prop := ∀ c ∈ rest.head?, c = ',' ∨ c = ']' ∨ c = '\x7d'

/-- A number as the grammar of JSON writes it. Without digits after the point there is no point. -/
structure Numeral where
  negative : Bool
  whole : List Char
  fraction : List Char
  exponent : Option (Bool × List Char)

/-- A list of decimal digits. -/
def Digits (cs : List Char) : Prop := ∀ c ∈ cs, c.isDigit = true

namespace Numeral

/-- The grammar of JSON: there are digits before the point, the first of several is not zero, and an
exponent has digits. -/
structure WellFormed (n : Numeral) : Prop where
  whole : Digits n.whole
  present : n.whole ≠ []
  leading : ∀ c rest, n.whole ≠ '0' :: c :: rest
  fraction : Digits n.fraction
  exponent : ∀ negative digits, n.exponent = some (negative, digits) →
    Digits digits ∧ digits ≠ []

/-- The point and the digits after it. -/
def fractionChars (n : Numeral) : List Char :=
  if n.fraction = [] then [] else '.' :: n.fraction

/-- The exponent with its sign. -/
def exponentChars (n : Numeral) : List Char :=
  match n.exponent with
  | none => []
  | some (negative, digits) => 'e' :: (if negative then '-' else '+') :: digits

/-- The characters after the sign. -/
def body (n : Numeral) : List Char := n.whole ++ (n.fractionChars ++ n.exponentChars)

/-- The characters of a numeral. -/
def chars (n : Numeral) : List Char := if n.negative then '-' :: n.body else n.body

/-- The digits of a numeral, as they are kept while it is read. -/
def significand (n : Numeral) : Term.Significand :=
  let whole : Term.Significand :=
    n.whole.foldl (fun s c => s.appendInteger (Term.digitValue c)) ⟨0, 0, false⟩
  if n.fraction = [] then whole
  else n.fraction.foldl (fun s c => s.appendFraction (Term.digitValue c)) { whole with full := false }

/-- The number that a numeral is read as; none if it is out of range. -/
def value? (n : Numeral) : Option Number :=
  match n.exponent with
  | none =>
    if n.fraction = [] then Term.wholeNumber? n.negative n.significand
    else Term.fractionNumber? n.negative n.significand false 0
  | some (negative, digits) =>
    Term.fractionNumber? n.negative n.significand negative (Term.digitsValue digits)

end Numeral

namespace Term

/-- Digits are taken up to the first character that is none. -/
theorem spanDigits_append {digits rest : List Char} (all : Digits digits)
    (stops : ∀ c ∈ rest.head?, c.isDigit = false) : spanDigits (digits ++ rest) = (digits, rest) := by
  have none : rest.takeWhile Char.isDigit = [] ∧ rest.dropWhile Char.isDigit = rest := by
    cases rest with
    | nil => exact ⟨rfl, rfl⟩
    | cons c later =>
      have stop := stops c rfl
      simp [stop]
  rw [spanDigits, List.span_eq_takeWhile_dropWhile, List.takeWhile_append_of_pos all,
    List.dropWhile_append_of_pos all, none.1, none.2, List.append_nil]

/-- What closes a value does not continue a number. -/
theorem stops_of_closes {rest : List Char} (closes : Closes rest) :
    ∀ c ∈ rest.head?, c.isDigit = false := by
  intro c first
  rcases closes c first with rfl | rfl | rfl <;> rfl

end Term

namespace Numeral

variable {n : Numeral} {rest : List Char}

/-- The exponent of a numeral is read to its end. -/
theorem readExponent_chars (wellFormed : n.WellFormed) (closes : Closes rest) :
    Term.readExponent n.negative n.significand (n.fraction ≠ []) (n.exponentChars ++ rest) =
      ⟨Term.ofNumber? n.value?, some rest⟩ := by
  unfold exponentChars value?
  cases exponent : n.exponent with
  | none =>
    simp only [List.nil_append]
    cases rest with
    | nil => by_cases whole : n.fraction = [] <;> simp [Term.readExponent, whole]
    | cons c later =>
      have other : ¬ (c = 'e' ∨ c = 'E') := by
        rcases closes c rfl with rfl | rfl | rfl <;> decide
      by_cases whole : n.fraction = [] <;> simp [Term.readExponent, whole, other]
  | some pair =>
    obtain ⟨negative, digits⟩ := pair
    obtain ⟨all, present⟩ := wellFormed.exponent negative digits exponent
    have spanned := Term.spanDigits_append all (Term.stops_of_closes closes)
    obtain ⟨c, later, rfl⟩ := List.exists_cons_of_ne_nil present
    rw [List.cons_append] at spanned
    cases negative <;> simp [Term.readExponent, Term.spanExponent, spanned]

/-- A numeral is read to its end, and as a number unless it is out of range. -/
theorem readNumber_body (wellFormed : n.WellFormed) (closes : Closes rest) :
    Term.readNumber n.negative (n.body ++ rest) = ⟨Term.ofNumber? n.value?, some rest⟩ := by
  have ended := readExponent_chars wellFormed closes
  have exponentStops : ∀ c ∈ (n.exponentChars ++ rest).head?, c.isDigit = false := by
    unfold exponentChars
    split
    · exact Term.stops_of_closes closes
    · simp
  have exponentPoint : ∀ later, n.exponentChars ++ rest ≠ '.' :: later := by
    intro later same
    unfold exponentChars at same
    split at same
    · have first := closes '.' (by rw [List.nil_append] at same; rw [same]; rfl)
      simp at first
    · simp at same
  have whole : Term.spanDigits (n.body ++ rest) =
      (n.whole, n.fractionChars ++ (n.exponentChars ++ rest)) := by
    rw [body, List.append_assoc, List.append_assoc]
    refine Term.spanDigits_append wellFormed.whole ?_
    unfold fractionChars
    split
    · exact exponentStops
    · simp
  rw [Term.readNumber, whole]
  split
  · rename_i none
    exact (wellFormed.present (congrArg Prod.fst none)).elim
  · rename_i long
    exact (wellFormed.leading _ _ (congrArg Prod.fst long)).elim
  · rename_i digits after _ _ same
    obtain ⟨rfl, rfl⟩ := Prod.mk.inj same
    by_cases plain : n.fraction = []
    · simp only [fractionChars, plain, if_true, List.nil_append]
      simpa [significand, plain] using ended
    · have places := Term.spanDigits_append wellFormed.fraction exponentStops
      obtain ⟨c, others, fraction⟩ := List.exists_cons_of_ne_nil plain
      simp only [fractionChars, plain, if_false, List.cons_append, places]
      simp only [fraction]
      simpa [significand, fraction] using ended

end Numeral

/-! ## Printed numbers -/

namespace Binary64

theorem digits_digitsOf (n : Nat) : Digits (digitsOf n) := fun _ mem =>
  Nat.isDigit_of_mem_toDigits (by decide) (by decide) mem

/-- Only zero is written with a zero in front. -/
theorem digitsOf_ne_zero_cons {n : Nat} (positive : n ≠ 0) (rest : List Char) :
    digitsOf n ≠ '0' :: rest := by
  induction n using Nat.strongRecOn generalizing rest with
  | _ n ih =>
    intro same
    rw [digitsOf, Nat.toDigits_eq_if (by decide)] at same
    split at same
    · simp [positive] at same
    · rename_i large
      cases front : Nat.toDigits 10 (n / 10) with
      | nil => exact Nat.toDigits_ne_nil front
      | cons first others =>
        rw [front, List.cons_append, List.cons.injEq] at same
        exact ih (n / 10) (by omega) (by omega) others (front.trans (by rw [same.1]))

/-- The first of several digits is not zero. -/
theorem digitsOf_leading (n : Nat) (c : Char) (rest : List Char) :
    digitsOf n ≠ '0' :: c :: rest := by
  by_cases zero : n = 0
  · simp [zero, digitsOf]
  · exact digitsOf_ne_zero_cons zero _

/-- Zero does not round to any other value. -/
theorem roundsTo_zero {x : Binary64} (positive : x.isZero = false) (place : Int) :
    x.roundsTo place 0 = false := by
  have significand : x.significand ≠ 0 := by simpa [isZero] using positive
  have powers : ∀ e : Nat, 0 < Nat.pow 2 e ∧ 0 < Nat.pow 10 e := fun e =>
    ⟨Nat.pow_pos (by decide), Nat.pow_pos (by decide)⟩
  have low : 0 < x.interval.2.1 := by
    simp only [interval]
    split <;> omega
  have num : 0 < (gridRatio x.interval.2.1 x.interval.1 place).1 :=
    Nat.mul_pos (Nat.mul_pos low (powers _).1) (powers _).2
  unfold roundsTo
  simp only [Nat.zero_mul]
  split
  · simp [Nat.not_le.2 num]
  · simp

theorem div_le_divideToEven (num den : Nat) : num / den ≤ divideToEven num den := by
  unfold divideToEven
  simp only
  split
  · exact Nat.le_refl _
  · split <;> omega

/-- A decimal that rounds to a value other than zero has digits. -/
theorem nearestOnGrid?_ne_zero {x : Binary64} (positive : x.isZero = false) {place : Int}
    {digits : Nat} (found : x.nearestOnGrid? place = some digits) : digits ≠ 0 := by
  have rounds : ∀ n, x.roundsTo place n = true → n ≠ 0 := by
    rintro n rounds rfl
    rw [roundsTo_zero positive] at rounds
    cases rounds
  simp only [nearestOnGrid?] at found
  split at found
  · rename_i below _
    cases found
    exact Nat.ne_of_gt (Nat.lt_of_lt_of_le (Nat.pos_of_ne_zero (rounds _ below))
      (div_le_divideToEven ..))
  · rename_i below _
    cases found
    exact rounds _ below
  · cases found
    exact Nat.succ_ne_zero _
  · cases found

theorem firstHit?_ne_zero {x : Binary64} (positive : x.isZero = false) {tries : Nat} {place : Int}
    {d : Decimal} (found : x.firstHit? tries place = some d) : d.digits ≠ 0 := by
  induction tries generalizing place with
  | zero => cases found
  | succ tries ih =>
    rw [firstHit?] at found
    split at found
    · rename_i digits hit
      cases found
      exact nearestOnGrid?_ne_zero positive hit
    · exact ih found

theorem dropZeros_ne_zero {steps : Nat} {d : Decimal} (positive : d.digits ≠ 0) :
    (dropZeros steps d).digits ≠ 0 := by
  induction steps generalizing d with
  | zero => exact positive
  | succ steps ih =>
    rw [dropZeros]
    split
    · rename_i trailing
      refine ih ?_
      simp only
      omega
    · exact positive

/-- The shortest decimal has digits, or it is plain zero. -/
theorem shortest_ne_zero (x : Binary64) : x.shortest.digits ≠ 0 ∨ x.shortest = ⟨0, 0⟩ := by
  unfold shortest
  split
  · exact .inr rfl
  · rename_i positive
    cases found : x.firstHit? 24 x.magnitudeBound with
    | none => exact .inr rfl
    | some d =>
      refine .inl (dropZeros_ne_zero (firstHit?_ne_zero ?_ found))
      simpa using positive

/-- The numeral that a value is written as. -/
def numeral (x : Binary64) : Numeral :=
  let digits := digitsOf x.shortest.digits
  let magnitude := (digits.length : Int) + x.shortest.exponent - 1
  if x.isZero then ⟨x.negative, ['0'], ['0'], none⟩
  else if magnitude < positional.least ∨ positional.bound ≤ magnitude then
    ⟨x.negative, digits.take 1, digits.drop 1, some (magnitude < 0, digitsOf magnitude.natAbs)⟩
  else if 0 ≤ x.shortest.exponent then
    ⟨x.negative, digits ++ List.replicate x.shortest.exponent.toNat '0', ['0'], none⟩
  else if 0 ≤ magnitude then
    ⟨x.negative, digits.take (magnitude.toNat + 1), digits.drop (magnitude.toNat + 1), none⟩
  else ⟨x.negative, ['0'], List.replicate (-magnitude - 1).toNat '0' ++ digits, none⟩

theorem chars_numeral (x : Binary64) : x.numeral.chars = x.text := by
  have present : digitsOf x.shortest.digits ≠ [] := Nat.toDigits_ne_nil
  unfold numeral text
  simp only
  generalize digitsOf x.shortest.digits = digits at present ⊢
  generalize found : (digits.length : Int) + x.shortest.exponent - 1 = magnitude
  have filled : 0 < digits.length := List.length_pos_iff.2 present
  by_cases plain : x.isZero = true
  · simp [plain, Numeral.chars, Numeral.body, Numeral.fractionChars, Numeral.exponentChars]
  by_cases scientific : magnitude < positional.least ∨ positional.bound ≤ magnitude
  · obtain ⟨first, rest, rfl⟩ := List.exists_cons_of_ne_nil present
    cases rest <;> by_cases below : magnitude < 0 <;>
      simp [plain, scientific, below, Numeral.chars, Numeral.body, Numeral.fractionChars,
        Numeral.exponentChars]
  by_cases large : 0 ≤ x.shortest.exponent
  · simp [plain, scientific, large, Numeral.chars, Numeral.body, Numeral.fractionChars,
      Numeral.exponentChars]
  by_cases mixed : 0 ≤ magnitude
  · have later : digits.drop (magnitude.toNat + 1) ≠ [] := by
      rw [ne_eq, List.drop_eq_nil_iff]
      omega
    simp [plain, scientific, large, mixed, later, Numeral.chars, Numeral.body,
      Numeral.fractionChars, Numeral.exponentChars]
  · simp [plain, scientific, large, mixed, present, Numeral.chars, Numeral.body,
      Numeral.fractionChars, Numeral.exponentChars]

theorem digits_zeros (count : Nat) : Digits (List.replicate count '0') := by
  intro c mem
  rw [(List.mem_replicate.1 mem).2]
  rfl

/-- The numeral of a value is one by the grammar: only plain zero begins with zero. -/
theorem wellFormed_numeral (x : Binary64) : x.numeral.WellFormed := by
  have shape := x.shortest_ne_zero
  have all := digits_digitsOf x.shortest.digits
  have present : digitsOf x.shortest.digits ≠ [] := Nat.toDigits_ne_nil
  have zero : Digits ['0'] := digits_zeros 1
  unfold numeral
  simp only
  split
  · exact ⟨zero, by simp, by simp, zero, by simp⟩
  split
  · refine ⟨fun c mem => all c (List.mem_of_mem_take mem), by simpa using present, ?_,
      fun c mem => all c (List.mem_of_mem_drop mem), ?_⟩
    · intro c rest same
      have short := congrArg List.length same
      simp at short
      omega
    · intro negative exponent same
      cases same
      exact ⟨digits_digitsOf _, Nat.toDigits_ne_nil⟩
  split
  · refine ⟨?_, by simp [present], ?_, zero, by simp⟩
    · intro c mem
      exact (List.mem_append.1 mem).elim (all c) (digits_zeros _ c)
    · intro c rest same
      rcases shape with positive | none
      · obtain ⟨first, others, listed⟩ := List.exists_cons_of_ne_nil present
        rw [listed, List.cons_append, List.cons.injEq] at same
        exact digitsOf_ne_zero_cons positive others (same.1 ▸ listed)
      · simp [none, digitsOf] at same
  split
  · refine ⟨fun c mem => all c (List.mem_of_mem_take mem), by simpa using present, ?_,
      fun c mem => all c (List.mem_of_mem_drop mem), by simp⟩
    intro c rest same
    have positive : x.shortest.digits ≠ 0 := shape.resolve_right fun none => by simp [none] at *
    obtain ⟨first, others, listed⟩ := List.exists_cons_of_ne_nil present
    rw [listed, List.take_succ_cons, List.cons.injEq] at same
    exact digitsOf_ne_zero_cons positive others (same.1 ▸ listed)
  · refine ⟨zero, by simp, by simp, ?_, by simp⟩
    intro c mem
    exact (List.mem_append.1 mem).elim (digits_zeros _ c) (all c)

end Binary64

namespace Json

/-- The characters of a number are those of a numeral. -/
theorem exists_numeral (n : Number) : ∃ numeral : Numeral, numeral.WellFormed ∧
    numeral.chars = numberChars n := by
  cases n with
  | binary x => exact ⟨x.numeral, x.wellFormed_numeral, x.chars_numeral⟩
  | integer value =>
    refine ⟨⟨decide (value < 0), Binary64.digitsOf value.natAbs, [], none⟩,
      ⟨Binary64.digits_digitsOf _, Nat.toDigits_ne_nil, Binary64.digitsOf_leading _, nofun, nofun⟩,
      ?_⟩
    simp [Numeral.chars, Numeral.body, Numeral.fractionChars, Numeral.exponentChars, numberChars,
      integerChars]

end Json

end TrustMesh
