import Mathlib.Data.List.Basic
import SlotPlan.Json.Numeral

/-!
# Numbers are read back

`Decimal.Spelled` says how a number may be written. The scan takes all of these characters, and no more
than them, if the text behind them does not go on a number (`Decimal.Ends`, `Decimal.Spelled.scan?`).
The digits of a whole number are one way to write it (`Decimal.spelled_toDigits`), and what a word of
64 bits can hold is then read as the number that was written (`Numeral.ofDecimal_ofDigits`).
-/

set_option autoImplicit false

namespace SlotPlan.Json

/-- Whether a word of 64 bits can hold a number. -/
def IsWord (n : Nat) : Prop :=
  n < UInt64.size

instance : DecidablePred IsWord := fun n =>
  inferInstanceAs (Decidable (n < UInt64.size))

theorem IsWord.of_le {m n : Nat} (h : IsWord n) (hle : m ≤ n) : IsWord m :=
  Nat.lt_of_le_of_lt hle h

namespace Decimal

/-- Whether a number ends in front of a text: no digit follows, no point and no exponent. -/
def Ends (rest : List Char) : Prop :=
  ∀ c ∈ rest.head?, c.isDigit = false ∧ c ∉ ['.', 'e', 'E']

theorem ends_nil : Ends [] :=
  fun _ hc => nomatch hc

theorem ends_cons {c : Char} (hdigit : c.isDigit = false) (hc : c ∉ ['.', 'e', 'E'])
    (rest : List Char) : Ends (c :: rest) := by
  intro d hd
  cases hd
  exact ⟨hdigit, hc⟩

/-! ## Ways to write a number -/

/-- Digits, at least one. -/
def IsDigits (ds : List Char) : Prop :=
  ds ≠ [] ∧ ∀ c ∈ ds, c.isDigit = true

/-- Digits that do not begin with a zero, or a zero alone. -/
def IsInteger (ds : List Char) : Prop :=
  IsDigits ds ∧ (ds.head? = some '0' → ds = ['0'])

/-- A minus sign, or nothing. -/
inductive MinusSpelled : Bool → List Char → Prop where
  | absent : MinusSpelled false []
  | minus : MinusSpelled true ['-']

/-- A point with digits after it, or nothing. -/
inductive FractionSpelled : Option (List Char) → List Char → Prop where
  | absent : FractionSpelled none []
  | point {ds : List Char} (hds : IsDigits ds) : FractionSpelled (some ds) ('.' :: ds)

/-- A sign of an exponent, or nothing. -/
inductive SignSpelled : Bool → List Char → Prop where
  | absent : SignSpelled false []
  | plus : SignSpelled false ['+']
  | minus : SignSpelled true ['-']

/-- An exponent, or nothing. -/
inductive ExponentSpelled : Option (Bool × List Char) → List Char → Prop where
  | absent : ExponentSpelled none []
  | letter {c : Char} {negative : Bool} {sign ds : List Char} (hc : c = 'e' ∨ c = 'E')
      (hsign : SignSpelled negative sign) (hds : IsDigits ds) :
      ExponentSpelled (some (negative, ds)) (c :: (sign ++ ds))

/-- The characters are a way to write the number: its sign, its integer part, its fraction and its
exponent. -/
inductive Spelled : Decimal → List Char → Prop where
  | parts {negative : Bool} {minus integer fractionText exponentText : List Char}
      {fraction : Option (List Char)} {exponent : Option (Bool × List Char)}
      (hminus : MinusSpelled negative minus) (hinteger : IsInteger integer)
      (hfraction : FractionSpelled fraction fractionText)
      (hexponent : ExponentSpelled exponent exponentText) :
      Spelled ⟨negative, integer, fraction, exponent⟩
        (minus ++ (integer ++ (fractionText ++ exponentText)))

/-! ## Digits -/

theorem IsDigits.exists_cons {ds : List Char} (h : IsDigits ds) :
    ∃ c cs, ds = c :: cs ∧ c.isDigit = true := by
  obtain ⟨c, cs, rfl⟩ := List.exists_cons_of_ne_nil h.1
  exact ⟨c, cs, rfl, h.2 c List.mem_cons_self⟩

/-- The scan takes all digits up to a text that does not begin with one. -/
theorem digits_append {ds rest : List Char} (hds : ∀ c ∈ ds, c.isDigit = true)
    (hrest : ∀ c ∈ rest.head?, c.isDigit = false) :
    digits (ds ++ rest) = ds ∧ afterDigits (ds ++ rest) = rest := by
  rw [digits, afterDigits, List.takeWhile_append_of_pos hds, List.dropWhile_append_of_pos hds]
  cases rest with
  | nil => exact ⟨List.append_nil ds, rfl⟩
  | cons c rest =>
      have hc : ¬c.isDigit = true := Bool.not_eq_true _ ▸ hrest c rfl
      rw [List.takeWhile_cons_of_neg hc, List.dropWhile_cons_of_neg hc]
      exact ⟨List.append_nil ds, rfl⟩

theorem scanDigits?_append {ds rest : List Char} (hds : IsDigits ds)
    (hrest : ∀ c ∈ rest.head?, c.isDigit = false) :
    scanDigits? (ds ++ rest) = some (ds, rest) := by
  obtain ⟨hdigits, hafter⟩ := digits_append hds.2 hrest
  rw [scanDigits?, hdigits, hafter]
  split
  · exact absurd rfl hds.1
  · rfl

theorem scanInteger?_append {ds rest : List Char} (hds : IsInteger ds)
    (hrest : ∀ c ∈ rest.head?, c.isDigit = false) :
    scanInteger? (ds ++ rest) = some (ds, rest) := by
  obtain ⟨hdigits, hafter⟩ := digits_append hds.1.2 hrest
  rw [scanInteger?, hdigits, hafter]
  -- There are digits, and a zero is only in front of them if it is the only one.
  split
  · exact absurd rfl hds.1.1
  · cases hds.2 rfl
  · rfl

/-! ## The parts of a number -/

theorem MinusSpelled.scan {negative : Bool} {minus : List Char}
    (h : MinusSpelled negative minus) {ds : List Char} (hds : IsDigits ds) (rest : List Char) :
    scanMinus (minus ++ (ds ++ rest)) = (negative, ds ++ rest) := by
  cases h with
  | minus => rfl
  | absent =>
      obtain ⟨c, cs, rfl, hc⟩ := hds.exists_cons
      rw [List.nil_append, List.cons_append]
      unfold scanMinus
      split
      · rename_i heq
        cases heq
        cases hc
      · rfl

theorem SignSpelled.scan {negative : Bool} {sign : List Char} (h : SignSpelled negative sign)
    {ds : List Char} (hds : IsDigits ds) (rest : List Char) :
    scanSign (sign ++ (ds ++ rest)) = (negative, ds ++ rest) := by
  cases h with
  | minus => rfl
  | plus => rfl
  | absent =>
      obtain ⟨c, cs, rfl, hc⟩ := hds.exists_cons
      rw [List.nil_append, List.cons_append]
      unfold scanSign
      split
      · rename_i heq
        cases heq
        cases hc
      · rename_i heq
        cases heq
        cases hc
      · rfl

/-- An exponent is found again, and so is that there is none. -/
theorem ExponentSpelled.scan? {exponent : Option (Bool × List Char)} {text : List Char}
    (h : ExponentSpelled exponent text) {rest : List Char} (hrest : Ends rest) :
    scanExponent? (text ++ rest) = some (exponent, rest) := by
  cases h with
  | absent =>
      cases rest with
      | nil => rfl
      | cons c rest =>
          have hc := (hrest c rfl).2
          rw [List.nil_append, scanExponent?, if_neg]
          rintro (rfl | rfl)
          · exact hc (by decide)
          · exact hc (by decide)
  | letter hc hsign hds =>
      have hdigits := scanDigits?_append hds fun c hc => (hrest c hc).1
      rw [List.cons_append, List.append_assoc, scanExponent?, if_pos hc, hsign.scan hds, hdigits]
      rfl

/-- Neither a digit nor a point stands where an exponent may come. -/
theorem ExponentSpelled.head? {exponent : Option (Bool × List Char)} {text : List Char}
    (h : ExponentSpelled exponent text) {rest : List Char} (hrest : Ends rest) :
    ∀ c ∈ (text ++ rest).head?, c.isDigit = false ∧ c ≠ '.' := by
  cases h with
  | absent =>
      intro c hc
      obtain ⟨hdigit, hc⟩ := hrest c hc
      exact ⟨hdigit, fun hpoint => hc (hpoint ▸ List.mem_cons_self)⟩
  | letter hc =>
      intro c' hc'
      cases hc'
      rcases hc with rfl | rfl <;> decide

/-- A fraction is found again, and so is that there is none. -/
theorem FractionSpelled.scan? {fraction : Option (List Char)} {text : List Char}
    (h : FractionSpelled fraction text) {rest : List Char}
    (hrest : ∀ c ∈ rest.head?, c.isDigit = false ∧ c ≠ '.') :
    scanFraction? (text ++ rest) = some (fraction, rest) := by
  cases h with
  | absent =>
      rw [List.nil_append]
      unfold scanFraction?
      split
      · exact absurd rfl (hrest '.' rfl).2
      · rfl
  | point hds =>
      have hdigits := scanDigits?_append hds fun c hc => (hrest c hc).1
      rw [List.cons_append, scanFraction?, hdigits]
      rfl

/-- No digit stands where a fraction may come. -/
theorem FractionSpelled.head? {fraction : Option (List Char)} {text : List Char}
    (h : FractionSpelled fraction text) {rest : List Char}
    (hrest : ∀ c ∈ rest.head?, c.isDigit = false ∧ c ≠ '.') :
    ∀ c ∈ (text ++ rest).head?, c.isDigit = false := by
  cases h with
  | absent => exact fun c hc => (hrest c hc).1
  | point hds =>
      intro c hc
      cases hc
      rfl

/-- **A number is found again, however it is written**, up to a text that does not go on it. -/
theorem Spelled.scan? {d : Decimal} {cs : List Char} (h : d.Spelled cs) {rest : List Char}
    (hrest : Ends rest) : scan? (cs ++ rest) = some (d, rest) := by
  cases h with
  | parts hminus hinteger hfraction hexponent =>
      have hexponentHead := hexponent.head? hrest
      have hminus := hminus.scan hinteger.1
      have hinteger := scanInteger?_append hinteger (hfraction.head? hexponentHead)
      simp only [Decimal.scan?, List.append_assoc, hminus, hinteger,
        hfraction.scan? hexponentHead, hexponent.scan? hrest, Option.bind_eq_bind,
        Option.bind_some]
      rfl

/-- A number begins with a digit or with a minus sign. -/
theorem Spelled.exists_cons {d : Decimal} {cs : List Char} (h : d.Spelled cs) :
    ∃ c cs', cs = c :: cs' ∧ (c.isDigit = true ∨ c = '-') := by
  cases h with
  | parts hminus hinteger =>
      cases hminus with
      | absent =>
          obtain ⟨c, cs, rfl, hc⟩ := hinteger.1.exists_cons
          exact ⟨c, _, rfl, .inl hc⟩
      | minus => exact ⟨'-', _, rfl, .inr rfl⟩

/-! ## Whole numbers -/

/-- The number that is written as the given digits. -/
def ofDigits (ds : List Char) : Decimal :=
  { negative := false, integer := ds, fraction := none, exponent := none }

/-- A number that is not zero has no zero in front. -/
theorem head?_toDigits_ne {n : Nat} (hn : 0 < n) : (Nat.toDigits 10 n).head? ≠ some '0' := by
  induction n using Nat.strongRecOn with
  | ind n ih =>
      by_cases hsmall : n < 10
      · have hdigits : ∀ d < 10, 0 < d → Nat.digitChar d ≠ '0' := by decide
        rw [Nat.toDigits_of_lt_base hsmall, List.head?_cons, ne_eq, Option.some.injEq]
        exact hdigits n hsmall hn
      · -- The first digit is that of the number without its last digit.
        rw [Nat.toDigits_of_base_le (by decide) (Nat.le_of_not_lt hsmall),
          List.head?_append_of_ne_nil _ Nat.toDigits_ne_nil]
        exact ih (n / 10) (by omega) (by omega)

theorem isInteger_toDigits (n : Nat) : IsInteger (Nat.toDigits 10 n) := by
  have hdigits : ∀ c ∈ Nat.toDigits 10 n, c.isDigit = true := fun c hc =>
    Nat.isDigit_of_mem_toDigits (by decide) (by decide) hc
  refine ⟨⟨Nat.toDigits_ne_nil, hdigits⟩, fun hzero => ?_⟩
  rcases Nat.eq_zero_or_pos n with rfl | hn
  · rfl
  · exact absurd hzero (head?_toDigits_ne hn)

/-- The digits of a number are a way to write it. -/
theorem spelled_toDigits (n : Nat) :
    (ofDigits (Nat.toDigits 10 n)).Spelled (Nat.toDigits 10 n) := by
  have h := Spelled.parts .absent (isInteger_toDigits n) .absent .absent
  rwa [List.nil_append, List.append_nil, List.append_nil] at h

end Decimal

/-- **A number that a word can hold is read as itself.** -/
theorem Numeral.ofDecimal_ofDigits {n : Nat} (h : IsWord n) :
    ofDecimal (.ofDigits (Nat.toDigits 10 n)) = whole n := by
  have hvalue : (Decimal.ofDigits (Nat.toDigits 10 n)).natural? = some n :=
    congrArg some (Nat.ofDigitChars_toDigits (by decide) (by decide))
  have hbound : n < Nat.pow 2 64 := h
  rw [ofDecimal, hvalue]
  exact if_pos hbound

/-- The greatest number that a word can hold is whole, and the next one is read as a fractional
number. -/
example : Numeral.ofDecimal (.ofDigits (Nat.toDigits 10 (UInt64.size - 1))) =
      .whole (UInt64.size - 1) ∧
    Numeral.ofDecimal (.ofDigits (Nat.toDigits 10 UInt64.size)) = .fractional := by
  decide +kernel

end SlotPlan.Json
