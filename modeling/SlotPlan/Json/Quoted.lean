/-!
# Quoted strings

A string stands between quotation marks. In it a backslash begins an escape: of one letter, or of
four hexadecimal digits for a unit of UTF-16. Two units, a high and a low surrogate, make one
character; a surrogate without its partner stands for nothing.

## What this module delivers

- `Quoted.scan?`: the string at the front of a text, after its opening mark, with the text behind it.
  The scan fails where the text is not a quoted string at all. A string with a surrogate that has no
  partner is well formed, and stands for nothing.
- `Quoted.render`: how a string is written. Only the quotation mark, the backslash and control
  characters are escaped; all other characters stand as they are.
-/

set_option autoImplicit false

namespace SlotPlan.Json.Quoted

/-- One part of a quoted string. -/
inductive Piece where
  /-- A character, as it is or behind an escape of one letter. -/
  | char (c : Char)
  /-- A unit of UTF-16, written in hexadecimal digits. -/
  | unit (n : Nat)
deriving DecidableEq

/-! ## Scanning -/

/-- The value of a hexadecimal digit. -/
def hexValue? (c : Char) : Option Nat :=
  if '0' ≤ c ∧ c ≤ '9' then some (c.toNat - '0'.toNat)
  else if 'a' ≤ c ∧ c ≤ 'f' then some (c.toNat - 'a'.toNat + 10)
  else if 'A' ≤ c ∧ c ≤ 'F' then some (c.toNat - 'A'.toNat + 10)
  else none

/-- The value of four hexadecimal digits. -/
def unitValue? (a b c d : Char) : Option Nat := do
  let a ← hexValue? a
  let b ← hexValue? b
  let c ← hexValue? c
  let d ← hexValue? d
  return ((a * 16 + b) * 16 + c) * 16 + d

/-- The character that a letter stands for behind a backslash. -/
def escaped? : Char → Option Char
  | '"' => some '"'
  | '\\' => some '\\'
  | '/' => some '/'
  | 'b' => some '\x08'
  | 'f' => some '\x0c'
  | 'n' => some '\n'
  | 'r' => some '\r'
  | 't' => some '\t'
  | _ => none

/-- Whether a character may only be written behind a backslash. -/
def isControl (c : Char) : Bool :=
  c.toNat < 0x20

/-- The parts of a string up to its closing mark, and the text behind the mark. -/
def pieces? : List Char → Option (List Piece × List Char)
  | '"' :: rest => some ([], rest)
  | '\\' :: 'u' :: a :: b :: c :: d :: rest => do
    let n ← unitValue? a b c d
    let (ps, rest) ← pieces? rest
    return (.unit n :: ps, rest)
  | '\\' :: e :: rest => do
    let c ← escaped? e
    let (ps, rest) ← pieces? rest
    return (.char c :: ps, rest)
  | c :: rest =>
    if isControl c then none
    else do
      let (ps, rest) ← pieces? rest
      return (.char c :: ps, rest)
  | [] => none

/-- Whether a unit is the first half of a character. -/
def isHighSurrogate (n : Nat) : Bool :=
  0xD800 ≤ n && n < 0xDC00

/-- Whether a unit is the second half of a character. -/
def isLowSurrogate (n : Nat) : Bool :=
  0xDC00 ≤ n && n < 0xE000

/-- The character that two surrogates make. -/
def combine (high low : Nat) : Char :=
  Char.ofNat (0x10000 + (high - 0xD800) * 0x400 + (low - 0xDC00))

/-- The characters that the parts of a string stand for, unless a surrogate has no partner. -/
def join? : List Piece → Option (List Char)
  | [] => some []
  | .char c :: ps => (join? ps).map (c :: ·)
  | .unit high :: .unit low :: ps =>
    if isHighSurrogate high then
      if isLowSurrogate low then (join? ps).map (combine high low :: ·) else none
    else if isLowSurrogate high then none
    else (join? (.unit low :: ps)).map (Char.ofNat high :: ·)
  | .unit n :: ps =>
    if isHighSurrogate n || isLowSurrogate n then none
    else (join? ps).map (Char.ofNat n :: ·)

/-- The string whose opening mark has just been read, if it stands for one, and the text behind
it. -/
def scan? (s : List Char) : Option (Option String × List Char) :=
  (pieces? s).map fun (ps, rest) => ((join? ps).map String.ofList, rest)

theorem length_lt_of_pieces? :
    ∀ {s rest : List Char} {ps : List Piece},
      pieces? s = some (ps, rest) → rest.length < s.length := by
  intro s
  fun_induction pieces? s with
  | case1 rest =>
      intro _ _ h
      cases h
      exact Nat.lt_succ_self _
  | case2 a b c d tail ih =>
      intro _ _ h
      obtain ⟨n, _, h⟩ := Option.bind_eq_some_iff.1 h
      obtain ⟨⟨ps, r⟩, hps, h⟩ := Option.bind_eq_some_iff.1 h
      cases h
      have := ih hps
      simp only [List.length_cons]
      omega
  | case3 e tail _ ih =>
      intro _ _ h
      obtain ⟨c, _, h⟩ := Option.bind_eq_some_iff.1 h
      obtain ⟨⟨ps, r⟩, hps, h⟩ := Option.bind_eq_some_iff.1 h
      cases h
      have := ih hps
      simp only [List.length_cons]
      omega
  | case4 =>
      intro _ _ h
      cases h
  | case5 c tail _ _ _ _ ih =>
      intro _ _ h
      obtain ⟨⟨ps, r⟩, hps, h⟩ := Option.bind_eq_some_iff.1 h
      cases h
      have := ih hps
      simp only [List.length_cons]
      omega
  | case6 =>
      intro _ _ h
      cases h

theorem length_lt_of_scan? {s rest : List Char} {t : Option String}
    (h : scan? s = some (t, rest)) : rest.length < s.length := by
  obtain ⟨⟨ps, r⟩, hps, heq⟩ := Option.map_eq_some_iff.1 h
  cases heq
  exact length_lt_of_pieces? hps

/-! ## Writing -/

/-- A control character without a letter of its own is written in four hexadecimal digits. -/
def hexEscape (c : Char) : List Char :=
  ['\\', 'u', '0', '0', Nat.digitChar (c.toNat / 16), Nat.digitChar (c.toNat % 16)]

/-- How a character is written in a string. -/
def renderChar (c : Char) : List Char :=
  if c = '"' then ['\\', '"']
  else if c = '\\' then ['\\', '\\']
  else if c = '\x08' then ['\\', 'b']
  else if c = '\x0c' then ['\\', 'f']
  else if c = '\n' then ['\\', 'n']
  else if c = '\r' then ['\\', 'r']
  else if c = '\t' then ['\\', 't']
  else if isControl c then hexEscape c
  else [c]

/-- A string between its marks. -/
def render (s : String) : List Char :=
  '"' :: s.toList.flatMap renderChar ++ ['"']

end SlotPlan.Json.Quoted
