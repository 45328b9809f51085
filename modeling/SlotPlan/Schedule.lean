import SlotPlan.Graph

/-!
# Schedules: operations in the order in which they run

A schedule is a sequence of operations. Positions in it are the time axis of everything that comes
after: last reads, lifetimes and slots.

## What this module delivers

- `Schedule`: a sequence of operations, without any promise.
- `Schedule.validate`: whether every input of every operation is produced strictly before it and no
  value is produced twice. The first position that breaks this is reported; at one position a
  missing input is reported before a repeated output.
- `Schedule.validated` and `Schedule.declared`: the ways to a schedule that promise as much.
-/

set_option autoImplicit false

namespace SlotPlan

/-- Operations in the order in which they run. -/
structure Schedule where
  /-- The operations, first to last. -/
  nodes : List Node
deriving DecidableEq

namespace Schedule

/-- Checks operations that run when the values `produced` are there. -/
def checkFrom (produced : List Name) : List Node → Except Error Unit
  | [] => .ok ()
  | n :: rest =>
    match n.inputs.find? (· ∉ produced) with
    | some input => .error (.outOfOrder n.output input)
    | none =>
      if n.output ∈ produced then .error (.duplicateOutput n.output)
      else checkFrom (n.output :: produced) rest

/-- Checks that every operation comes after the operations it depends on, and that every value is
produced once. -/
def validate (s : Schedule) : Except Error Unit :=
  checkFrom [] s.nodes

/-- The schedule of a sequence of operations that passes `validate`. -/
def validated (nodes : List Node) : Except Error Schedule :=
  match validate ⟨nodes⟩ with
  | .ok () => .ok ⟨nodes⟩
  | .error e => .error e

/-- The schedule that runs the operations of a graph as they are declared. -/
def declared (g : Graph) : Except Error Schedule :=
  validated g.nodes

/-- The number of operations. -/
def size (s : Schedule) : Nat :=
  s.nodes.length

/-- The values that are produced, first to last. -/
def outputs (s : Schedule) : List Name :=
  s.nodes.map Node.output

/-- The operation at a position. -/
def get? (s : Schedule) (position : Nat) : Option Node :=
  s.nodes[position]?

/-- The first position at which a value is produced. -/
def positionOf? (s : Schedule) (value : Name) : Option Nat :=
  s.nodes.findIdx? (·.output = value)

theorem validated_eq_ok_iff {nodes : List Node} {s : Schedule} :
    validated nodes = .ok s ↔ s = ⟨nodes⟩ ∧ validate ⟨nodes⟩ = .ok () := by
  unfold validated
  cases validate ⟨nodes⟩ with
  | ok u => simp [eq_comm]
  | error e => simp

end Schedule

end SlotPlan
