import Mathlib.Tactic.SplitIfs
import SlotPlan.Json.Quoted

/-!
# Quoted strings are read back

`Quoted.Spelled` says how the parts of a string may be written. The scan finds these parts again and
stops behind the closing mark (`Quoted.Spelled.scan?`). The writer writes every character as one part:
as itself, behind an escape of one letter, or as a unit of UTF-16, and the part stands for the
character whatever comes after it (`Quoted.exists_piece_of_renderChar`).
-/

set_option autoImplicit false

namespace SlotPlan.Json.Quoted

/-! ## Ways to write a string -/

/-- The characters are a way to write the parts, one after the other. -/
inductive Spelled : List Piece → List Char → Prop where
  /-- Nothing is written. -/
  | nil : Spelled [] []
  /-- A character is written as it is. -/
  | plain {c : Char} {ps : List Piece} {cs : List Char} (hquote : c ≠ '"') (hslash : c ≠ '\\')
      (hcontrol : isControl c = false) (hrest : Spelled ps cs) : Spelled (.char c :: ps) (c :: cs)
  /-- A character is written behind a backslash. -/
  | letter {e c : Char} {ps : List Piece} {cs : List Char} (hescape : escaped? e = some c)
      (hrest : Spelled ps cs) : Spelled (.char c :: ps) ('\\' :: e :: cs)
  /-- A unit of UTF-16 is written in four hexadecimal digits. -/
  | unit {a b c d : Char} {n : Nat} {ps : List Piece} {cs : List Char}
      (hvalue : unitValue? a b c d = some n) (hrest : Spelled ps cs) :
      Spelled (.unit n :: ps) ('\\' :: 'u' :: a :: b :: c :: d :: cs)

/-- The parts of a string are found again up to the closing mark. -/
theorem Spelled.pieces? {ps : List Piece} {cs : List Char} (h : Spelled ps cs) (rest : List Char) :
    pieces? (cs ++ '"' :: rest) = some (ps, rest) := by
  induction h with
  | nil => rw [List.nil_append, Quoted.pieces?]
  | plain hquote hslash hcontrol _ ih =>
      rw [List.cons_append, Quoted.pieces?]
      · rw [hcontrol, ih]
        rfl
      all_goals simp [hquote, hslash]
  | @letter e c _ _ hescape _ ih =>
      have hunit : e ≠ 'u' := by
        rintro rfl
        cases hescape
      rw [List.cons_append, List.cons_append, Quoted.pieces?]
      · rw [hescape, ih]
        rfl
      · intro a b c d rest heq
        exact absurd heq hunit
  | unit hvalue _ ih =>
      simp only [List.cons_append]
      rw [Quoted.pieces?, hvalue, ih]
      rfl

/-- **A string is read back, however it is written**, and what follows its closing mark is left. -/
theorem Spelled.scan? {ps : List Piece} {cs : List Char} (h : Spelled ps cs) (rest : List Char) :
    scan? (cs ++ '"' :: rest) = some ((join? ps).map String.ofList, rest) := by
  rw [Quoted.scan?, h.pieces? rest, Option.map_some]

/-! ## What the writer writes -/

/-- Whether a part of a string stands for a character, whatever part comes next. -/
def Piece.StandsFor (p : Piece) (c : Char) : Prop :=
  ∀ ps, join? (p :: ps) = (join? ps).map (c :: ·)

theorem standsFor_char (c : Char) : (Piece.char c).StandsFor c :=
  fun _ => rfl

/-- A unit below the surrogates is a character of its own. -/
theorem standsFor_unit {c : Char} (h : isControl c = true) : (Piece.unit c.toNat).StandsFor c := by
  have hlt : c.toNat < 0x20 := of_decide_eq_true h
  have hhigh : isHighSurrogate c.toNat = false := by
    simp only [isHighSurrogate, Bool.and_eq_false_iff, decide_eq_false_iff_not]
    omega
  have hlow : isLowSurrogate c.toNat = false := by
    simp only [isLowSurrogate, Bool.and_eq_false_iff, decide_eq_false_iff_not]
    omega
  intro ps
  -- Whether the next part is a unit as well only matters to a surrogate.
  cases ps with
  | nil => simp [join?, hhigh, hlow]
  | cons p ps => cases p <;> simp [join?, hhigh, hlow]

/-- A control character is written in two hexadecimal digits, behind two zeros. -/
theorem unitValue?_hexEscape :
    ∀ n < 0x20, unitValue? '0' '0' (Nat.digitChar (n / 16)) (Nat.digitChar (n % 16)) = some n := by
  decide

/-- **A character is written as one part, and the part stands for the character.** -/
theorem exists_piece_of_renderChar (c : Char) :
    ∃ p : Piece, p.StandsFor c ∧
      ∀ {ps cs}, Spelled ps cs → Spelled (p :: ps) (renderChar c ++ cs) := by
  have hescape : ∀ e, escaped? e = some c → ∃ p : Piece, p.StandsFor c ∧
      ∀ {ps cs}, Spelled ps cs → Spelled (p :: ps) (['\\', e] ++ cs) :=
    fun e he => ⟨.char c, standsFor_char c, fun hrest => .letter he hrest⟩
  unfold renderChar
  -- The cases are those of the writer: seven letters, then the other control characters.
  split_ifs with hquote hslash hb hf hn hr ht hcontrol
  · exact hescape _ (congrArg some hquote.symm)
  · exact hescape _ (congrArg some hslash.symm)
  · exact hescape _ (congrArg some hb.symm)
  · exact hescape _ (congrArg some hf.symm)
  · exact hescape _ (congrArg some hn.symm)
  · exact hescape _ (congrArg some hr.symm)
  · exact hescape _ (congrArg some ht.symm)
  · have hvalue := unitValue?_hexEscape c.toNat (of_decide_eq_true hcontrol)
    exact ⟨.unit c.toNat, standsFor_unit hcontrol, fun hrest => .unit hvalue hrest⟩
  · have hplain : isControl c = false := Bool.not_eq_true _ ▸ hcontrol
    exact ⟨.char c, standsFor_char c, fun hrest => .plain hquote hslash hplain hrest⟩

/-- **What the writer writes between the marks is a way to write the string.** -/
theorem exists_spelled_of_flatMap (cs : List Char) :
    ∃ ps, Spelled ps (cs.flatMap renderChar) ∧ join? ps = some cs := by
  induction cs with
  | nil => exact ⟨[], .nil, rfl⟩
  | cons c cs ih =>
      obtain ⟨ps, hspelled, hjoin⟩ := ih
      obtain ⟨p, hp, hfirst⟩ := exists_piece_of_renderChar c
      refine ⟨p :: ps, hfirst hspelled, ?_⟩
      rw [hp ps, hjoin]
      rfl

/-- Both marks of the writer, two control characters, and a character beyond the units of UTF-16. -/
example : String.ofList (render "\"\\\n\x1f😀") = "\"\\\"\\\\\\n\\u001f😀\"" := by
  decide +kernel

end SlotPlan.Json.Quoted
