import SlotPlan.Json.Decimal

/-!
# What a number amounts to

A reader of positions and counts only has to know whether a number is a whole number that a word of
64 bits can hold, and which. All others are told apart by what is said about them: small negative
whole numbers by their value, and the rest by whether it is within the range of floating-point
numbers.
-/

set_option autoImplicit false

namespace SlotPlan.Json

/-- What a number amounts to. -/
inductive Numeral where
  /-- The number `n`, which is below `2 ^ 64`. -/
  | whole (n : Nat)
  /-- The number `-n`, which is not zero and not below `-2 ^ 63`. -/
  | negative (n : Nat)
  /-- Any other number within the range of floating-point numbers. -/
  | fractional
  /-- A number that is too large to be read at all. -/
  | excessive
deriving DecidableEq

namespace Numeral

/-- A number that is neither a word nor a small negative number. -/
def ofRange (d : Decimal) : Numeral :=
  if d.exceedsDouble then excessive else fractional

/-- What a written number amounts to. A minus sign before a zero makes it a fractional number. -/
def ofDecimal (d : Decimal) : Numeral :=
  match d.natural? with
  | none => ofRange d
  | some n =>
    if d.negative then
      if 0 < n ∧ n ≤ Nat.pow 2 63 then negative n else ofRange d
    else
      if n < Nat.pow 2 64 then whole n else ofRange d

/-- A way to write a number that amounts to this. -/
def spelling : Numeral → List Char
  | whole n => Nat.toDigits 10 n
  | negative n => '-' :: Nat.toDigits 10 n
  | fractional => "0.5".toList
  | excessive => "1e999".toList

end Numeral

end SlotPlan.Json
