import Mathlib.Data.List.Chain
import SlotPlan.Json.Token
import SlotPlan.Proofs.Json.Numeral
import SlotPlan.Proofs.Json.Quoted

/-!
# Tokens are read back

`Token.Spelled` says how a token may be written, and `Token.Laid` how tokens are laid out in a text,
with blanks between them. The token that was spelled is the one that the scan finds: a separator
whatever follows it, another token if the text behind it cannot go on a number
(`Token.Spelled.first?`). So tokens are read back however they are laid out, if no two of them stand
side by side without a separator (`Token.Laid.scan`).
-/

set_option autoImplicit false

namespace SlotPlan.Json

namespace Token

/-! ## One token at a time -/

/-- No token begins with a blank. -/
theorem isBlank_eq_false_of_first? {c : Char} {s rest : List Char} {t : Token}
    (h : first? (c :: s) = some (t, rest)) : isBlank c = false := by
  by_contra hblank
  simp only [isBlank, Bool.not_eq_false, Bool.or_eq_true, decide_eq_true_eq] at hblank
  rcases hblank with ((rfl | rfl) | rfl) | rfl <;> cases h

/-- **The token in front of a text is the first one of its tokens.** -/
theorem scan_of_first? {s rest : List Char} {t : Token} (h : first? s = some (t, rest)) :
    scan s = t :: scan rest := by
  cases s with
  | nil => cases h
  | cons c s =>
      rw [scan, if_neg (Bool.eq_false_iff.1 (isBlank_eq_false_of_first? h))]
      split
      · rename_i t' rest' h'
        rw [h] at h'
        cases h'
        rfl
      · rename_i h'
        rw [h] at h'
        cases h'

/-- Nothing but a number begins with a digit or a minus sign. -/
theorem first?_of_number {c : Char} (h : c.isDigit = true ∨ c = '-') (s : List Char) :
    first? (c :: s) =
      (Decimal.scan? (c :: s)).map fun (d, rest) => (scalar (.number (.ofDecimal d)), rest) := by
  unfold first?
  split
  case h_11 => rfl
  all_goals
    rename_i heq
    cases heq
    exact absurd h (by decide)

/-- Nothing but a string begins with a quotation mark. -/
theorem first?_quote (s : List Char) :
    first? ('"' :: s) = (Quoted.scan? s).map fun (t, rest) => (scalar (.text t), rest) :=
  rfl

/-- Blanks in front of a text do not count. -/
theorem scan_blanks {blanks : List Char} (h : ∀ c ∈ blanks, isBlank c = true) (s : List Char) :
    scan (blanks ++ s) = scan s := by
  induction blanks with
  | nil => rfl
  | cons c blanks ih =>
      obtain ⟨hc, hblanks⟩ := List.forall_mem_cons.1 h
      rw [List.cons_append, scan, if_pos hc, ih hblanks]

/-- Whether a token stands between the scalars of a document. -/
def IsSeparator (t : Token) : Prop :=
  t ∈ [openArray, closeArray, openObject, closeObject, comma, colon]

instance : DecidablePred IsSeparator := fun t =>
  inferInstanceAs (Decidable (t ∈ [openArray, closeArray, openObject, closeObject, comma, colon]))

theorem first?_separator {t : Token} (h : t.IsSeparator) (rest : List Char) :
    first? (t.spelling ++ rest) = some (t, rest) := by
  simp only [IsSeparator, List.mem_cons, List.not_mem_nil, or_false] at h
  rcases h with rfl | rfl | rfl | rfl | rfl | rfl <;> rfl

/-- In front of a separator a number ends. -/
theorem ends_separator {t : Token} (h : t.IsSeparator) (rest : List Char) :
    Decimal.Ends (t.spelling ++ rest) := by
  simp only [IsSeparator, List.mem_cons, List.not_mem_nil, or_false] at h
  rcases h with rfl | rfl | rfl | rfl | rfl | rfl <;>
    exact Decimal.ends_cons (by decide) (by decide) rest

/-- In front of a blank a number ends. -/
theorem ends_blank {c : Char} (h : isBlank c = true) (rest : List Char) :
    Decimal.Ends (c :: rest) := by
  simp only [isBlank, Bool.or_eq_true, decide_eq_true_eq] at h
  rcases h with ((rfl | rfl) | rfl) | rfl <;>
    exact Decimal.ends_cons (by decide) (by decide) rest

/-! ## Ways to write a token -/

/-- The characters are a way to write the token. -/
inductive Spelled : Token → List Char → Prop where
  /-- A separator is written in one way. -/
  | separator {t : Token} (h : t.IsSeparator) : Spelled t t.spelling
  /-- The empty value is written in one way. -/
  | null : Spelled (scalar .null) "null".toList
  /-- A truth value is written in one way. -/
  | bool (b : Bool) : Spelled (scalar (.bool b)) (spelling (scalar (.bool b)))
  /-- A number is written with or without a fraction and an exponent. -/
  | number {d : Decimal} {cs : List Char} (h : d.Spelled cs) :
      Spelled (scalar (.number (.ofDecimal d))) cs
  /-- A string is written between its marks, with or without escapes. -/
  | text {ps : List Quoted.Piece} {cs : List Char} (h : Quoted.Spelled ps cs) :
      Spelled (scalar (.text ((Quoted.join? ps).map String.ofList))) ('"' :: (cs ++ ['"']))

/-- **A token is found again, however it is written**, in front of a text that cannot go on a
number. -/
theorem Spelled.first? {t : Token} {cs : List Char} (h : t.Spelled cs) {rest : List Char}
    (hrest : t.IsSeparator ∨ Decimal.Ends rest) : first? (cs ++ rest) = some (t, rest) := by
  cases h with
  | separator h => exact first?_separator h rest
  | null => rfl
  | bool b => cases b <;> rfl
  | number h =>
      have hends := hrest.resolve_left (by simp [IsSeparator])
      obtain ⟨c, cs', rfl, hc⟩ := h.exists_cons
      have hscan := h.scan? hends
      rw [List.cons_append] at hscan
      rw [List.cons_append, first?_of_number hc, hscan, Option.map_some]
  | text h =>
      rw [List.cons_append, List.append_assoc, List.singleton_append, first?_quote, h.scan?,
        Option.map_some]

/-- The characters are the tokens, one after the other, with blanks around them. -/
inductive Laid : List Token → List Char → Prop where
  /-- Blanks may stand at the end. -/
  | nil {blanks : List Char} (hblanks : ∀ c ∈ blanks, isBlank c = true) : Laid [] blanks
  /-- Blanks may stand before a token. -/
  | cons {blanks cs rest : List Char} {t : Token} {ts : List Token}
      (hblanks : ∀ c ∈ blanks, isBlank c = true) (hfirst : t.Spelled cs) (hrest : Laid ts rest) :
      Laid (t :: ts) (blanks ++ (cs ++ rest))

/-- Whether there is a separator at least between any two other tokens. -/
def Spaced (ts : List Token) : Prop :=
  ts.IsChain fun t t' => t.IsSeparator ∨ t'.IsSeparator

/-- A number ends in front of blanks, of a separator and of the end of the text. -/
theorem Laid.ends {ts : List Token} {s : List Char} (h : Laid ts s)
    (hts : ∀ t ∈ ts.head?, t.IsSeparator) : Decimal.Ends s := by
  cases h with
  | nil hblanks =>
      cases s with
      | nil => exact Decimal.ends_nil
      | cons c blanks => exact ends_blank (hblanks c List.mem_cons_self) blanks
  | @cons blanks cs rest t ts hblanks hfirst hrest =>
      cases blanks with
      | cons c blanks => exact ends_blank (hblanks c List.mem_cons_self) _
      | nil =>
          have ht : t.IsSeparator := hts t rfl
          cases hfirst with
          | separator => exact ends_separator ht rest
          | _ => exact absurd ht (by simp [IsSeparator])

/-- **Tokens are read back however they are laid out.** -/
theorem Laid.scan {ts : List Token} {s : List Char} (h : Laid ts s) (hts : Spaced ts) :
    scan s = ts := by
  induction h with
  | @nil blanks hblanks =>
      have hscan := scan_blanks hblanks []
      rwa [List.append_nil, Token.scan] at hscan
  | @cons blanks cs rest t ts hblanks hfirst hrest ih =>
      obtain ⟨hnext, hts⟩ := List.isChain_cons.1 hts
      have hends : t.IsSeparator ∨ Decimal.Ends rest := by
        by_cases ht : t.IsSeparator
        · exact .inl ht
        · exact .inr (hrest.ends fun t' ht' => (hnext t' ht').resolve_left ht)
      rw [scan_blanks hblanks, scan_of_first? (hfirst.first? hends), ih hts]

/-- Tokens may be laid out with the same blanks before each of them, and each in the way that the writer
has for it. -/
theorem laid_flatMap {blanks : List Char} (hblanks : ∀ c ∈ blanks, isBlank c = true)
    {ts : List Token} (h : ∀ t ∈ ts, t.Spelled t.spelling) :
    Laid ts (ts.flatMap fun t => blanks ++ t.spelling) := by
  induction ts with
  | nil => exact .nil nofun
  | cons t ts ih =>
      obtain ⟨ht, hts⟩ := List.forall_mem_cons.1 h
      rw [List.flatMap_cons, List.append_assoc]
      exact .cons hblanks ht (ih hts)

theorem spaced_singleton (t : Token) : Spaced [t] :=
  List.isChain_singleton t

/-- A separator may stand before anything. -/
theorem Spaced.separator_cons {t : Token} (h : t.IsSeparator) {ts : List Token} (hts : Spaced ts) :
    Spaced (t :: ts) :=
  List.isChain_cons.2 ⟨fun _ _ => .inl h, hts⟩

/-- A separator may stand behind anything. -/
theorem Spaced.append_separator_cons {t : Token} (h : t.IsSeparator) {ts ts' : List Token}
    (hts : Spaced ts) (hts' : Spaced ts') : Spaced (ts ++ t :: ts') := by
  refine List.isChain_append.2 ⟨hts, hts'.separator_cons h, ?_⟩
  intro t' _ t'' ht''
  cases ht''
  exact .inr h

end Token

/-! ## Scalars -/

/-- The scalars that values are written as. -/
inductive Scalar.Written : Scalar → Prop where
  /-- The empty value. -/
  | null : Written .null
  /-- A whole number that a word can hold. -/
  | whole {n : Nat} (h : IsWord n) : Written (.number (.whole n))
  /-- A string. -/
  | text (s : String) : Written (.text (some s))

/-- What the writer writes is a way to write the scalar. -/
theorem Scalar.Written.spelled {a : Scalar} (h : a.Written) :
    (Token.scalar a).Spelled (Token.scalar a).spelling := by
  cases h with
  | null => exact .null
  | @whole n hword =>
      have hspelled := Token.Spelled.number (Decimal.spelled_toDigits n)
      rwa [Numeral.ofDecimal_ofDigits hword] at hspelled
  | text s =>
      obtain ⟨ps, hspelled, hjoin⟩ := Quoted.exists_spelled_of_flatMap s.toList
      have htext := Token.Spelled.text hspelled
      rwa [hjoin, Option.map_some, String.ofList_toList] at htext

end SlotPlan.Json
