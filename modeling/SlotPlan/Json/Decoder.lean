import SlotPlan.Json.Doc.Reading
import SlotPlan.Json.Mismatch
import SlotPlan.Roster

/-!
# Getting values out of documents

A decoder looks at a document for one kind of value. The parts of a document are looked at in the
order in which they are written, so of several faults the first one in the text is reported, and a
fault behind it does not count.

## What this module delivers

- `Decoder` and `Decoder.run`, which applies a decoder to a text. Behind the value nothing may be
  left.
- Decoders for names, numbers, lists, rosters and words.
- `Decoder.skip`: passes over a document that nobody asked for. It has to be a JSON value.
-/

set_option autoImplicit false

namespace SlotPlan.Json

/-- A way to get a value out of a document. -/
abbrev Decoder (α : Type) := Doc → Except Mismatch α

namespace Decoder

variable {α β : Type}

/-- Gets a value out of a text, behind which nothing is left. -/
def run (decode : Decoder α) (s : String) : Except Mismatch α :=
  match Doc.ofText s with
  | (d, rest) => do
    let a ← decode d
    if rest.isEmpty then return a else throw .malformed

/-- Decodes, and changes the value. -/
def map (f : α → β) (decode : Decoder α) : Decoder β :=
  fun d => (decode d).map f

/-- What a finished container gives. A torn one gives nothing. -/
def finish (closed : Bool) (a : α) : Except Mismatch α :=
  if closed then .ok a else .error .malformed

/-- A string. -/
def text : Decoder String
  | .scalar (.text (some s)) => .ok s
  | d => .error (d.mismatch "a string")

/-- The key of a member. -/
def key : Option String → Except Mismatch String
  | some s => .ok s
  | none => .error .malformed

/-- A whole number below `2 ^ 64`. -/
def nat : Decoder Nat
  | .scalar (.number (.whole n)) => .ok n
  | .scalar (.number (.negative n)) => .error (.negative n "usize")
  | d => .error (d.mismatch "usize")

/-- The empty value. -/
def unit : Decoder Unit
  | .scalar .null => .ok ()
  | d => .error (d.mismatch "unit")

/-- The empty value, or a value of the given kind. -/
def nullable (decode : Decoder α) : Decoder (Option α)
  | .scalar .null => .ok none
  | d => (decode d).map some

/-- Anything that is a JSON value. -/
def skip (d : Doc) : Except Mismatch Unit :=
  if d.isComplete then .ok () else .error .malformed

/-- An array of values of one kind. -/
def list (decode : Decoder α) : Decoder (List α)
  | .array items closed => do
    let values ← items.mapM decode
    finish closed values
  | d => .error (d.mismatch "a sequence")

/-- A key and its value. -/
def entry (decode : Decoder α) (member : Option String × Doc) : Except Mismatch (Name × α) := do
  let name ← key member.1
  let value ← decode member.2
  return (name, value)

/-- An object with values of one kind. A key that is repeated keeps its place and takes the last
value. -/
def roster (decode : Decoder α) : Decoder (Roster α)
  | .object members closed => do
    let entries ← members.mapM (entry decode)
    finish closed (.ofList entries)
  | d => .error (d.mismatch "a map")

/-- The value that a word stands for. -/
def lookUp (words : List (String × α)) (word : String) : Except Mismatch α :=
  match words.lookup word with
  | some a => .ok a
  | none => .error (.unknownWord word (words.map Prod.fst))

/-- A word, alone or as the only key of an object whose value is empty. -/
def word (words : List (String × α)) : Decoder α
  | .scalar (.text (some s)) => lookUp words s
  | .object ((some s, value) :: rest) closed => do
    let a ← lookUp words s
    unit value
    finish (rest.isEmpty && closed) a
  | _ => .error .malformed

end Decoder

end SlotPlan.Json
