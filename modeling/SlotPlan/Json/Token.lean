import SlotPlan.Json.Numeral
import SlotPlan.Json.Quoted

/-!
# The tokens of a JSON text

## What this module delivers

- `Scalar` and `Token`.
- `Token.scan`: the tokens of a text. Blanks between tokens do not count. Where no token begins, the
  scan ends with `Token.junk`: whatever follows cannot be read.
- `Token.spelling`: a text that is scanned as the token.
-/

set_option autoImplicit false

namespace SlotPlan.Json

/-- A value without parts. -/
inductive Scalar where
  | null
  | bool (b : Bool)
  | number (n : Numeral)
  /-- A string. It is `none` if a surrogate in it has no partner. -/
  | text (s : Option String)
deriving DecidableEq

/-- A word of a JSON text. -/
inductive Token where
  | scalar (s : Scalar)
  | openArray
  | closeArray
  | openObject
  | closeObject
  | comma
  | colon
  /-- Something that begins no token. -/
  | junk
deriving DecidableEq

namespace Token

/-- Whether a character may stand between tokens. -/
def isBlank (c : Char) : Bool :=
  c = ' ' || c = '\t' || c = '\n' || c = '\r'

/-- The token at the very front of a text, and the text behind it. -/
def first? : List Char → Option (Token × List Char)
  | '[' :: rest => some (openArray, rest)
  | ']' :: rest => some (closeArray, rest)
  | '{' :: rest => some (openObject, rest)
  | '}' :: rest => some (closeObject, rest)
  | ',' :: rest => some (comma, rest)
  | ':' :: rest => some (colon, rest)
  | '"' :: rest => (Quoted.scan? rest).map fun (s, rest) => (scalar (.text s), rest)
  | 'n' :: 'u' :: 'l' :: 'l' :: rest => some (scalar .null, rest)
  | 't' :: 'r' :: 'u' :: 'e' :: rest => some (scalar (.bool true), rest)
  | 'f' :: 'a' :: 'l' :: 's' :: 'e' :: rest => some (scalar (.bool false), rest)
  | s => (Decimal.scan? s).map fun (d, rest) => (scalar (.number (.ofDecimal d)), rest)

/-- A token takes up at least one character. -/
theorem length_lt_of_first? {s rest : List Char} {t : Token} (h : first? s = some (t, rest)) :
    rest.length < s.length := by
  unfold first? at h
  split at h
  case h_7 =>
    obtain ⟨⟨text, r⟩, hscan, heq⟩ := Option.map_eq_some_iff.1 h
    cases heq
    exact Nat.lt_succ_of_lt (Quoted.length_lt_of_scan? hscan)
  case h_11 =>
    obtain ⟨⟨d, r⟩, hscan, heq⟩ := Option.map_eq_some_iff.1 h
    cases heq
    exact Decimal.length_lt_of_scan? hscan
  all_goals
    cases h
    simp only [List.length_cons]
    omega

/-- The tokens of a text. -/
def scan (s : List Char) : List Token :=
  match s with
  | [] => []
  | c :: rest =>
    if isBlank c then scan rest
    else
      match _h : first? (c :: rest) with
      | some (t, rest') => t :: scan rest'
      | none => [junk]
termination_by s.length
decreasing_by
  · exact Nat.lt_succ_self _
  · exact length_lt_of_first? _h

/-- A text that is scanned as the token. -/
def spelling : Token → List Char
  | scalar .null => "null".toList
  | scalar (.bool true) => "true".toList
  | scalar (.bool false) => "false".toList
  | scalar (.number n) => n.spelling
  | scalar (.text (some s)) => Quoted.render s
  | scalar (.text none) => "\"\\ud800\"".toList
  | openArray => ['[']
  | closeArray => [']']
  | openObject => ['{']
  | closeObject => ['}']
  | comma => [',']
  | colon => [':']
  | junk => ['?']

end Token

end SlotPlan.Json
