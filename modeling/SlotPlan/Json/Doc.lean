import SlotPlan.Json.Token

/-!
# JSON documents, whole or torn

A document is read from left to right, and what is wrong with it only matters to a reader who gets
that far. So a text that breaks off in the middle still has a document: its containers are torn
where the text could not be read on, and a value that could not be read at all is broken.

## What this module delivers

- `Doc`: documents.
- `Doc.isComplete`: whether a document is a JSON value, with nothing torn or broken.
- `Doc.tokens` and `Doc.render`: the compact way to write a document.
-/

set_option autoImplicit false

namespace SlotPlan.Json

/-- A document, as far as it can be read. -/
inductive Doc where
  /-- A value without parts. -/
  | scalar (s : Scalar)
  /-- The items of an array, and whether its end was found behind them. -/
  | array (items : List Doc) (closed : Bool)
  /-- The keys and values of an object, and whether its end was found behind them. A key is `none` if
  a surrogate in it has no partner. -/
  | object (members : List (Option String × Doc)) (closed : Bool)
  /-- Nothing that could be read. -/
  | broken

namespace Doc

instance : Inhabited Doc :=
  ⟨broken⟩

/-! ## Values -/

/-- The empty value. -/
def null : Doc :=
  scalar .null

/-- A whole number. -/
def nat (n : Nat) : Doc :=
  scalar (.number (.whole n))

/-- A string. -/
def text (s : String) : Doc :=
  scalar (.text (some s))

/-- The array of the given items. -/
def list (items : List Doc) : Doc :=
  array items true

/-- The object with the given keys and values. -/
def fields (members : List (String × Doc)) : Doc :=
  object (members.map fun (key, value) => (some key, value)) true

/-! ## Completeness -/

mutual

/-- Whether a document is a JSON value. -/
def isComplete : Doc → Bool
  | scalar _ => true
  | array items closed => itemsComplete items && closed
  | object members closed => membersComplete members && closed
  | broken => false

/-- Whether all items of an array are JSON values. -/
def itemsComplete : List Doc → Bool
  | [] => true
  | item :: rest => isComplete item && itemsComplete rest

/-- Whether the values of all members of an object are JSON values. -/
def membersComplete : List (Option String × Doc) → Bool
  | [] => true
  | (_, value) :: rest => isComplete value && membersComplete rest

end

/-! ## Writing -/

mutual

/-- The tokens of a document. -/
def tokens : Doc → List Token
  | scalar s => [.scalar s]
  | array items closed => .openArray :: itemsTokens items ++ if closed then [.closeArray] else []
  | object members closed =>
    .openObject :: membersTokens members ++ if closed then [.closeObject] else []
  | broken => [.junk]

/-- The tokens of the items of an array, with commas between them. -/
def itemsTokens : List Doc → List Token
  | [] => []
  | [item] => tokens item
  | item :: rest => tokens item ++ .comma :: itemsTokens rest

/-- The tokens of the members of an object, with commas between them. -/
def membersTokens : List (Option String × Doc) → List Token
  | [] => []
  | [(key, value)] => .scalar (.text key) :: .colon :: tokens value
  | (key, value) :: rest =>
    .scalar (.text key) :: .colon :: tokens value ++ .comma :: membersTokens rest

end

/-- A document written without blanks. -/
def render (d : Doc) : String :=
  String.ofList (d.tokens.flatMap Token.spelling)

end Doc

end SlotPlan.Json
