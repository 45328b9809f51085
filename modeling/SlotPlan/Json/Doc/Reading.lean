import SlotPlan.Json.Doc

/-!
# Reading documents

A document is read token by token. What has been read is kept as the place that the next token
belongs to: the containers that are still open around it, each with its finished parts.

## What this module delivers

- `Place` and `Place.tear`: the open containers, and the document that is left when the text cannot
  be read on behind a value.
- `Reading` and `Reading.next?`: what may come next, and what becomes of it.
- `Doc.ofTokens` and `Doc.ofText`: the document at the front of a text, and the tokens behind it.
-/

set_option autoImplicit false

namespace SlotPlan.Json

/-- The containers that are open around a value, innermost first. -/
inductive Place where
  /-- The value is the whole document. -/
  | top
  /-- The value is an item of an array, behind the given ones, latest first. -/
  | item (before : List Doc) (outer : Place)
  /-- The value belongs to a key of an object, behind the given members, latest first. -/
  | value (before : List (Option String × Doc)) (key : Option String) (outer : Place)

namespace Place

/-- The document that is left when nothing can be read behind a value. -/
def tear : Place → Doc → Doc
  | top, d => d
  | item before outer, d => outer.tear (.array (d :: before).reverse false)
  | value before key outer, d => outer.tear (.object ((key, d) :: before).reverse false)

end Place

/-- How far the reading of a document has come. -/
inductive Reading where
  /-- A value has to come. -/
  | before (place : Place)
  /-- An array has been opened: its first item has to come, or its end. -/
  | openedArray (outer : Place)
  /-- An object has been opened: its first key has to come, or its end. -/
  | openedObject (outer : Place)
  /-- A key of an object has to come, behind the given members, latest first. -/
  | beforeKey (members : List (Option String × Doc)) (outer : Place)
  /-- A key of an object has been read: a colon has to come. -/
  | behindKey (members : List (Option String × Doc)) (key : Option String) (outer : Place)
  /-- A value has been read: what has to come is a separator, or the end of its container. -/
  | behind (place : Place) (d : Doc)

namespace Reading

/-- What a token that begins a value leads to. -/
def begin? (place : Place) : Token → Option Reading
  | .scalar s => some (behind place (.scalar s))
  | .openArray => some (openedArray place)
  | .openObject => some (openedObject place)
  | _ => none

/-- What the next token leads to, if it may stand there. -/
def next? : Reading → Token → Option Reading
  | before place, t => begin? place t
  | openedArray outer, .closeArray => some (behind outer (.array [] true))
  | openedArray outer, t => begin? (.item [] outer) t
  | openedObject outer, .closeObject => some (behind outer (.object [] true))
  | openedObject outer, .scalar (.text key) => some (behindKey [] key outer)
  | beforeKey members outer, .scalar (.text key) => some (behindKey members key outer)
  | behindKey members key outer, .colon => some (before (.value members key outer))
  | behind (.item items outer) d, .comma => some (before (.item (d :: items) outer))
  | behind (.item items outer) d, .closeArray =>
    some (behind outer (.array (d :: items).reverse true))
  | behind (.value members key outer) d, .comma => some (beforeKey ((key, d) :: members) outer)
  | behind (.value members key outer) d, .closeObject =>
    some (behind outer (.object ((key, d) :: members).reverse true))
  | _, _ => none

/-- The document that is left when nothing can be read on. -/
def abandon : Reading → Doc
  | before place => place.tear .broken
  | openedArray outer => outer.tear (.array [] false)
  | openedObject outer => outer.tear (.object [] false)
  | beforeKey members outer => outer.tear (.object members.reverse false)
  | behindKey members key outer => outer.tear (.object ((key, .broken) :: members).reverse false)
  | behind place d => place.tear d

/-- Reads on until the document is finished or cannot be read on. -/
def run : Reading → List Token → Doc × List Token
  | behind .top d, ts => (d, ts)
  | r, [] => (r.abandon, [])
  | r, t :: ts =>
    match r.next? t with
    | some r' => run r' ts
    | none => (r.abandon, t :: ts)

end Reading

namespace Doc

/-- The document at the front of a list of tokens, and the tokens behind it. -/
def ofTokens (ts : List Token) : Doc × List Token :=
  Reading.run (.before .top) ts

/-- The document at the front of a text, and the tokens behind it. -/
def ofText (s : String) : Doc × List Token :=
  ofTokens (Token.scan s.toList)

end Doc

end SlotPlan.Json
