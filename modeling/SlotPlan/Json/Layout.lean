import SlotPlan.Json.Decoder

/-!
# Records with named fields

A record is written as an object with its fields in any order, or as an array with the values of its
fields in the order of the layout. Members of the object that are no fields are passed over.

## What this module delivers

- `Field`, `Presence` and `Layout`: how a kind of record is written.
- `Layout.decoder`: the decoder that a layout describes, for both forms.
-/

set_option autoImplicit false

namespace SlotPlan.Json

/-- Where a field may be left out. -/
inductive Presence where
  /-- Nowhere. -/
  | always
  /-- In an object. -/
  | exceptInObject
  /-- In an object, and at the end of an array. -/
  | optional
deriving DecidableEq

/-- One field of a record of type `α`. -/
structure Field (α : Type) where
  /-- The key of the field. -/
  name : String
  /-- Where the field may be left out. -/
  presence : Presence
  /-- Decodes the value of the field, and puts it into a record. -/
  read : Decoder (α → α)

/-- The field whose value is decoded by `decode` and put into a record by `put`. -/
def Field.of {α β : Type} (name : String) (presence : Presence) (decode : Decoder β)
    (put : β → α → α) : Field α :=
  ⟨name, presence, decode.map put⟩

/-- How records of type `α` are written. -/
structure Layout (α : Type) where
  /-- What a record is called in messages. -/
  title : String
  /-- The record before any field has been read: it holds the values of the fields that are left
  out. -/
  blank : α
  /-- The fields. -/
  fields : List (Field α)

namespace Layout

variable {α : Type}

/-! ## Objects -/

/-- Reads the members of an object into a record. With the record come the names of the fields that
were read, latest first. A field that has been read before is refused before its value is looked
at. -/
def readMembers (fields : List (Field α)) :
    List (Option String × Doc) → List String → α → Except Mismatch (α × List String)
  | [], seen, a => .ok (a, seen)
  | (key, value) :: rest, seen, a => do
    let name ← Decoder.key key
    match fields.find? (·.name = name) with
    | some field =>
      if name ∈ seen then throw (.duplicateField name)
      else
        let put ← field.read value
        readMembers fields rest (name :: seen) (put a)
    | none =>
      Decoder.skip value
      readMembers fields rest seen a

/-- The first field that an object must have and does not have. -/
def missing? (fields : List (Field α)) (seen : List String) : Option String :=
  (fields.find? fun f => f.presence = .always ∧ f.name ∉ seen).map Field.name

/-- A record that is written as an object. -/
def readObject (l : Layout α) (members : List (Option String × Doc)) (closed : Bool) :
    Except Mismatch α := do
  let (a, seen) ← readMembers l.fields members [] l.blank
  let a ← Decoder.finish closed a
  match missing? l.fields seen with
  | some name => throw (.missingField name)
  | none => return a

/-! ## Arrays -/

/-- What a record is called in messages about the length of an array. -/
def lengthTitle (l : Layout α) : String :=
  l.title ++ " with " ++ toString l.fields.length ++ " elements"

/-- Reads the items of an array into a record, where `length` counts the items read before. -/
def readItems (l : Layout α) (closed : Bool) :
    List (Field α) → List Doc → Nat → α → Except Mismatch α
  | [], [], _, a => Decoder.finish closed a
  | [], _ :: _, _, _ => .error .malformed
  | field :: fields, item :: rest, length, a => do
    let put ← field.read item
    readItems l closed fields rest (length + 1) (put a)
  | field :: fields, [], length, a =>
    if !closed then .error .malformed
    else if field.presence = .optional then readItems l closed fields [] length a
    else .error (.wrongLength length l.lengthTitle)

/-- The decoder that a layout describes. -/
def decoder (l : Layout α) : Decoder α
  | .object members closed => l.readObject members closed
  | .array items closed => l.readItems closed l.fields items 0 l.blank
  | d => .error (d.mismatch l.title)

end Layout

end SlotPlan.Json
