import SlotPlan.Text.Invisible

/-!
# Text as it is shown in messages

A message that quotes a text shows it between quotation marks. The mark and the backslash stand
behind a backslash; four control characters have a letter, and every other character that does not
show by itself is shown as its code point in braces.
-/

set_option autoImplicit false

namespace SlotPlan.Text

/-- A character as its code point in braces, in lower-case hexadecimal digits. -/
def showPoint (c : Char) : List Char :=
  ['\\', 'u', '{'] ++ Nat.toDigits 16 c.toNat ++ ['}']

/-- A character as it is shown in a message. -/
def showChar (c : Char) : List Char :=
  if c = '\x00' then ['\\', '0']
  else if c = '\t' then ['\\', 't']
  else if c = '\n' then ['\\', 'n']
  else if c = '\r' then ['\\', 'r']
  else if c = '"' then ['\\', '"']
  else if c = '\\' then ['\\', '\\']
  else if isInvisible c then showPoint c
  else [c]

/-- A text as it is shown in a message. -/
def quote (s : String) : String :=
  String.ofList ('"' :: s.toList.flatMap showChar ++ ['"'])

end SlotPlan.Text
