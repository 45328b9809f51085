import SlotPlan.Node

/-!
# What can be wrong with a graph, an order or a configuration

Every failure of building, ordering and planning has one cause, and each cause carries the names
that a reader needs to find it. The wording of all of them is in `Error.message`.
-/

set_option autoImplicit false

namespace SlotPlan

/-- The cause of a failure. -/
inductive Error where
  /-- Two operations produce the value `output`. -/
  | duplicateOutput (output : Name)
  /-- The operation that produces `node` reads `input`, which nothing produces. -/
  | unknownInput (node input : Name)
  /-- The values along `path` depend on one another; the first value is repeated at the end. -/
  | cycleDetected (path : List Name)
  /-- The operation that produces `node` stands before the one that produces `input`, which it
  reads. -/
  | outOfOrder (node input : Name)
  /-- A configuration cannot be read, for the given reason. -/
  | invalidConfig (reason : String)
deriving DecidableEq

namespace Error

/-- A path is written as its values with arrows between them. -/
def renderPath (path : List Name) : String :=
  " -> ".intercalate path

/-- The text that reports a failure. -/
def message : Error → String
  | duplicateOutput output => "value '" ++ output ++ "' is produced by more than one node"
  | unknownInput node input =>
    "node '" ++ node ++ "' reads '" ++ input ++ "', which no node produces"
  | cycleDetected path => "cycle detected in dependency graph: " ++ renderPath path
  | outOfOrder node input => "node '" ++ node ++ "' is ordered before its input '" ++ input ++ "'"
  | invalidConfig reason => "invalid planner configuration: " ++ reason

end Error

end SlotPlan
