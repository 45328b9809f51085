/-!
# Values and the operations that produce them

A dataflow graph is a list of operations. Every operation produces one named value and reads any
number of others; a value carries the name of the operation that makes it, so names are the only
links between operations.

## What this module delivers

- `Name`: the name of a value.
- `Node`: one operation, as it is declared.
- `Node.reads` and `Node.width`: the distinct values an operation reads, and how many they are. A
  value that is listed twice among the inputs is one value, and takes one slot.
-/

set_option autoImplicit false

namespace SlotPlan

/-- The name of a value. Two names are the same when they have the same characters; nothing is
normalised, and the empty name is a name like any other. -/
abbrev Name := String

/-- One operation: it produces the value `output` and reads the values `inputs`, in the order in
which they are declared. -/
structure Node where
  /-- The value that the operation produces. -/
  output : Name
  /-- The values that the operation reads; a value may be listed more than once. -/
  inputs : List Name := []
deriving DecidableEq

namespace Node

/-- An operation is a source when it reads nothing. -/
def isSource (n : Node) : Bool :=
  n.inputs.isEmpty

/-- The values that the operation reads, each once, in the order of their first mention. -/
def reads (n : Node) : List Name :=
  n.inputs.eraseDups

/-- The number of distinct values that the operation reads. -/
def width (n : Node) : Nat :=
  n.reads.length

/-- An operation reads exactly the values that its input list mentions. -/
@[simp]
theorem mem_reads {n : Node} {x : Name} : x ∈ n.reads ↔ x ∈ n.inputs :=
  List.mem_eraseDups

end Node

end SlotPlan
