import SlotPlan.Allocation.Assign
import SlotPlan.Config
import SlotPlan.Graph.Sorting

/-!
# Plans

A plan is a schedule for a graph together with the slots of its values.

## What this module delivers

- `Plan`, `Plan.slotsUsed` and `Plan.agrees`.
- `Graph.schedule`: the schedule that a configuration asks for.
- `Graph.plan`: the plan of a graph.
-/

set_option autoImplicit false

namespace SlotPlan

/-- A schedule, and a slot for every value it produces. -/
structure Plan where
  /-- The operations in the order in which they run. -/
  schedule : Schedule
  /-- The slots of the values. -/
  allocation : Allocation
deriving DecidableEq

namespace Plan

/-- The number of different slots that the plan uses. -/
def slotsUsed (p : Plan) : Nat :=
  p.allocation.slotsUsed

/-- Whether two plans are the same up to the order of the entries of their allocations. -/
def agrees (p q : Plan) : Bool :=
  p.schedule == q.schedule && p.allocation.agrees q.allocation

end Plan

namespace Graph

/-- The schedule that a configuration asks for. -/
def schedule (g : Graph) (config : Config) : Except Error Schedule :=
  match config.order with
  | .topological => g.sort config.cycles
  | .declared => Schedule.declared g

/-- The plan of a graph: its schedule, and the allocation for the last reads of that. -/
def plan (g : Graph) (config : Config) : Except Error Plan := do
  let schedule ← g.schedule config
  return { schedule, allocation := schedule.allocate }

end Graph

end SlotPlan
