/-!
# Decimal numbers as they are written

A number in a JSON text is an optional sign, an integer part without needless zeros, and optionally
a fraction and an exponent.

## What this module delivers

- `Decimal` and `Decimal.scan?`: the parts of the number at the front of a text, with the rest of
  the text, which is shorter (`length_lt_of_scan?`).
- `Decimal.natural?`: the value of a number that is written without fraction and exponent.
- `Decimal.exceedsDouble`: whether a number is too large to be read as a binary floating-point
  number of 64 bits. Such a number is read as a significand, made of the leading digits that fit 64
  bits, times a power of ten. Both are rounded to 53 bits, and so is the product; the number is too
  large when that leaves the format's range.
-/

set_option autoImplicit false

namespace SlotPlan.Json

/-- The parts of a number, as they are written. -/
structure Decimal where
  /-- Whether a minus sign stands before it. -/
  negative : Bool
  /-- The digits of the integer part. -/
  integer : List Char
  /-- The digits after the point, if there is one. -/
  fraction : Option (List Char)
  /-- Whether the exponent is negative, and its digits, if there is one. -/
  exponent : Option (Bool × List Char)
deriving DecidableEq

namespace Decimal

/-! ## Scanning -/

/-- The digits at the front of a text. -/
def digits (s : List Char) : List Char :=
  s.takeWhile Char.isDigit

/-- What follows the digits at the front of a text. -/
def afterDigits (s : List Char) : List Char :=
  s.dropWhile Char.isDigit

/-- At least one digit. -/
def scanDigits? (s : List Char) : Option (List Char × List Char) :=
  match digits s with
  | [] => none
  | ds => some (ds, afterDigits s)

/-- An integer part: a zero alone, or digits that do not begin with a zero. -/
def scanInteger? (s : List Char) : Option (List Char × List Char) :=
  match digits s with
  | [] => none
  | '0' :: _ :: _ => none
  | ds => some (ds, afterDigits s)

/-- A point with digits after it, or nothing. -/
def scanFraction? : List Char → Option (Option (List Char) × List Char)
  | '.' :: s => (scanDigits? s).map fun (ds, rest) => (some ds, rest)
  | s => some (none, s)

/-- A sign: whether it is a minus sign. Without a sign, or with a plus sign, it is none. -/
def scanSign : List Char → Bool × List Char
  | '-' :: s => (true, s)
  | '+' :: s => (false, s)
  | s => (false, s)

/-- An exponent, or nothing. -/
def scanExponent? : List Char → Option (Option (Bool × List Char) × List Char)
  | c :: s =>
    if c = 'e' ∨ c = 'E' then
      (scanDigits? (scanSign s).2).map fun (ds, rest) => (some ((scanSign s).1, ds), rest)
    else some (none, c :: s)
  | [] => some (none, [])

/-- A minus sign, or nothing. -/
def scanMinus : List Char → Bool × List Char
  | '-' :: s => (true, s)
  | s => (false, s)

/-- The number at the front of a text, and the rest of the text. -/
def scan? (s : List Char) : Option (Decimal × List Char) := do
  let (integer, afterInteger) ← scanInteger? (scanMinus s).2
  let (fraction, afterFraction) ← scanFraction? afterInteger
  let (exponent, rest) ← scanExponent? afterFraction
  return ({ negative := (scanMinus s).1, integer, fraction, exponent }, rest)

theorem length_afterDigits_le (s : List Char) : (afterDigits s).length ≤ s.length :=
  (List.dropWhile_suffix _).length_le

theorem length_scanMinus_le (s : List Char) : (scanMinus s).2.length ≤ s.length := by
  unfold scanMinus
  split <;> simp

theorem length_scanSign_le (s : List Char) : (scanSign s).2.length ≤ s.length := by
  unfold scanSign
  split <;> simp

theorem length_lt_of_scanInteger? {s ds rest : List Char} (h : scanInteger? s = some (ds, rest)) :
    rest.length < s.length := by
  unfold scanInteger? at h
  have hsplit : digits s ++ afterDigits s = s := List.takeWhile_append_dropWhile
  have hlength := congrArg List.length hsplit
  rw [List.length_append] at hlength
  split at h
  · cases h
  · cases h
  · rename_i hne _
    cases h
    have hpos := List.length_pos_iff.2 hne
    omega

theorem length_le_of_scanDigits? {s ds rest : List Char} (h : scanDigits? s = some (ds, rest)) :
    rest.length ≤ s.length := by
  unfold scanDigits? at h
  split at h
  · cases h
  · cases h
    exact length_afterDigits_le s

theorem length_le_of_scanFraction? {s rest : List Char} {fraction : Option (List Char)}
    (h : scanFraction? s = some (fraction, rest)) : rest.length ≤ s.length := by
  unfold scanFraction? at h
  split at h
  · obtain ⟨⟨ds, r⟩, hds, heq⟩ := Option.map_eq_some_iff.1 h
    cases heq
    exact Nat.le_succ_of_le (length_le_of_scanDigits? hds)
  · cases h
    exact Nat.le_refl _

theorem length_le_of_scanExponent? {s rest : List Char} {exponent : Option (Bool × List Char)}
    (h : scanExponent? s = some (exponent, rest)) : rest.length ≤ s.length := by
  unfold scanExponent? at h
  split at h
  · rename_i c s
    split at h
    · obtain ⟨⟨ds, r⟩, hds, heq⟩ := Option.map_eq_some_iff.1 h
      cases heq
      have hdigits := length_le_of_scanDigits? hds
      have hsign := length_scanSign_le s
      simp only [List.length_cons]
      omega
    · cases h
      exact Nat.le_refl _
  · cases h
    exact Nat.le_refl _

/-- A number takes up at least one character. -/
theorem length_lt_of_scan? {s rest : List Char} {d : Decimal} (h : scan? s = some (d, rest)) :
    rest.length < s.length := by
  unfold scan? at h
  obtain ⟨⟨integer, afterInteger⟩, hinteger, h⟩ := Option.bind_eq_some_iff.1 h
  obtain ⟨⟨fraction, afterFraction⟩, hfraction, h⟩ := Option.bind_eq_some_iff.1 h
  obtain ⟨⟨exponent, afterExponent⟩, hexponent, h⟩ := Option.bind_eq_some_iff.1 h
  cases h
  have h1 := length_scanMinus_le s
  have h2 := length_lt_of_scanInteger? hinteger
  have h3 := length_le_of_scanFraction? hfraction
  have h4 := length_le_of_scanExponent? hexponent
  omega

/-! ## Values -/

/-- The number that digits stand for. -/
def value (ds : List Char) : Nat :=
  Nat.ofDigitChars 10 ds 0

/-- The size of a number that is written without fraction and exponent. -/
def natural? (d : Decimal) : Option Nat :=
  match d.fraction, d.exponent with
  | none, none => some (value d.integer)
  | _, _ => none

/-! ## Range -/

/-- Takes digits into a significand while it stays below `2 ^ 64`. The result is the significand and
the number of digits that were left. -/
def accumulate (significand : Nat) : List Char → Nat × Nat
  | [] => (significand, 0)
  | c :: cs =>
    let next := value [c] + 10 * significand
    if next < Nat.pow 2 64 then accumulate next cs else (significand, cs.length + 1)

/-- The significand of a number and the power of ten that it is multiplied by. Digits of the integer
part that did not fit make the power larger, digits of the fraction that did fit make it smaller. -/
def scientific (d : Decimal) : Nat × Int :=
  let fraction := d.fraction.getD []
  let (whole, wholeLeft) := accumulate 0 d.integer
  let (significand, fractionLeft) := accumulate whole fraction
  let written : Int :=
    match d.exponent with
    | none => 0
    | some (negative, ds) => if negative then -(value ds : Int) else value ds
  (significand, wholeLeft - (fraction.length - fractionLeft : Nat) + written)

/-- The nearest number with at most `bits` binary digits before its trailing zeros; of two nearest
ones the even one. -/
def roundBits (bits n : Nat) : Nat :=
  let unit := Nat.pow 2 (n.log2 + 1 - bits)
  let quotient := n / unit
  let twice := 2 * (n % unit)
  if twice > unit ∨ (twice = unit ∧ quotient % 2 = 1) then (quotient + 1) * unit
  else quotient * unit

/-- Whether a number is too large for a binary floating-point number of 64 bits. -/
def exceedsDouble (d : Decimal) : Bool :=
  let (significand, power) := d.scientific
  significand ≠ 0 && 0 ≤ power &&
    (power > 308 ||
      roundBits 53 significand * roundBits 53 (Nat.pow 10 power.toNat) ≥
        Nat.pow 2 1024 - Nat.pow 2 970)

end Decimal

end SlotPlan.Json
