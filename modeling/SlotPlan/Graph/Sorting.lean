import SlotPlan.Graph.Walk
import SlotPlan.Schedule

/-!
# Sorting a graph

A graph is sorted by one walk from its roots, in the order of declaration: the operations are
scheduled in the order in which the walk emits them. Whatever the roots do not depend on, directly
or not, hangs on a cycle. To find that cycle, the rejecting policy visits every value after the
roots; the tolerating policy leaves such operations out and counts them.

## What this module delivers

- `Sorting`: the schedule, with the dependencies that were dropped and the number of operations that
  were left out.
- `Graph.sorting` and `Graph.sort`: the sorting of a graph, and its schedule alone.
-/

set_option autoImplicit false

namespace SlotPlan

/-- What sorting a graph gives. -/
structure Sorting where
  /-- The operations in the order in which the walk emitted them. -/
  schedule : Schedule
  /-- The dependencies that were dropped, as reader and input, first to last. -/
  dropped : List (Name × Name)
  /-- The number of operations that were left out. -/
  unreached : Nat
deriving DecidableEq

namespace Graph

/-- The values from which the walk sets out, in this order. If the roots have left nothing behind, the
visits to all values change nothing, so it does not matter that they are made in this case too
(`Graph.sorting_eq_sortingInRounds`). -/
def starts (g : Graph) : CyclePolicy → List Name
  | .reject => g.roots ++ g.outputs
  | .tolerate => g.roots

/-- Sorts a graph, and tells what was given up for it. -/
def sorting (g : Graph) (policy : CyclePolicy) : Except Error Sorting := do
  let walk ← (g.starts policy).foldlM (Walk.visit g policy) Walk.start
  return {
    schedule := ⟨walk.emitted.reverse⟩
    dropped := walk.dropped.reverse
    unreached := g.size - walk.emitted.length }

/-- Sorts a graph. -/
def sort (g : Graph) (policy : CyclePolicy) : Except Error Schedule :=
  (g.sorting policy).map Sorting.schedule

end Graph

end SlotPlan
