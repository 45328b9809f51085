import SlotPlan.Error
import SlotPlan.Json.Doc
import SlotPlan.Text.Shown

/-!
# What can be wrong with a text that should hold a value

Either the text is no JSON text as far as it was read, or it holds something else than what was
asked for. All the wording is in `Mismatch.message`. It tells what is wrong, and leaves out where:
the line and column at which the failure was found are not part of a message. Nor are the digits of
a number that is no integer, or what exactly is malformed in a malformed text.

## What this module delivers

- `Shape`: what a document looks like to a reader who wanted something else.
- `Mismatch`: the causes of failure, and their wording.
- `Doc.mismatch`: the failure of a reader who wanted something else than the document.
-/

set_option autoImplicit false

namespace SlotPlan.Json

/-- What a document looks like from outside. Of a container only the opening counts. -/
inductive Shape where
  | null
  | bool (b : Bool)
  | integer (n : Int)
  | fractional
  | text (s : String)
  | sequence
  | map
deriving DecidableEq

/-- A word of a message that is quoted literally stands between backticks. -/
def ticked (s : String) : String :=
  "`" ++ s ++ "`"

namespace Shape

/-- What a document looks like, in words. A number that is no integer is not written out: its digits
are not kept, and it is called a floating point number whatever its value. -/
def describe : Shape → String
  | null => "null"
  | bool b => "boolean " ++ ticked (if b then "true" else "false")
  | integer n => "integer " ++ ticked (toString n)
  | fractional => "floating point"
  | text s => "string " ++ Text.quote s
  | sequence => "sequence"
  | map => "map"

end Shape

/-- The cause of a failure to get a value out of a text. -/
inductive Mismatch where
  /-- The text is no JSON text, as far as it was read. -/
  | malformed
  /-- Something else stands where `wanted` should be. -/
  | wrongType (found : Shape) (wanted : String)
  /-- The number `-n` stands where `wanted` should be. -/
  | negative (n : Nat) (wanted : String)
  /-- An array has another number of items than `wanted`. -/
  | wrongLength (length : Nat) (wanted : String)
  /-- The field `name` occurs twice. -/
  | duplicateField (name : String)
  /-- The field `name` does not occur. -/
  | missingField (name : String)
  /-- A word is none of those that are known. -/
  | unknownWord (word : String) (known : List String)
  /-- The value was read, and is not acceptable. -/
  | rejected (cause : Error)
deriving DecidableEq

namespace Mismatch

/-- The text that reports a failure. It does not go on to name the line and column at which the failure
was found. Of a malformed text it tells no more than that it is one. -/
def message : Mismatch → String
  | malformed => "malformed text"
  | wrongType found wanted => "invalid type: " ++ found.describe ++ ", expected " ++ wanted
  | negative n wanted =>
    "invalid value: " ++ (Shape.integer (-n)).describe ++ ", expected " ++ wanted
  | wrongLength length wanted => "invalid length " ++ toString length ++ ", expected " ++ wanted
  | duplicateField name => "duplicate field " ++ ticked name
  | missingField name => "missing field " ++ ticked name
  | unknownWord word known =>
    "unknown variant " ++ ticked word ++ ", expected " ++ " or ".intercalate (known.map ticked)
  | rejected cause => cause.message

end Mismatch

namespace Doc

/-- What a document looks like from outside, if its beginning can be read. -/
def shape? : Doc → Option Shape
  | scalar .null => some .null
  | scalar (.bool b) => some (.bool b)
  | scalar (.number (.whole n)) => some (.integer n)
  | scalar (.number (.negative n)) => some (.integer (-n))
  | scalar (.number .fractional) => some .fractional
  | scalar (.number .excessive) => none
  | scalar (.text s) => s.map .text
  | array _ _ => some .sequence
  | object _ _ => some .map
  | broken => none

/-- The failure of a reader who wanted something else than the document. -/
def mismatch (d : Doc) (wanted : String) : Mismatch :=
  match d.shape? with
  | some found => .wrongType found wanted
  | none => .malformed

end Doc

end SlotPlan.Json
