import SlotPlan.Allocation
import SlotPlan.SlotTable

/-!
# Giving slots to the values of a schedule

One pass from the first operation to the last. Each value claims a slot when its operation runs; the
claim depends on the earlier values only.

## What this module delivers

- `Assignment`: the record of one value, with the claim that led to it.
- `AllocationPass`: the assignments of a whole schedule, and the table of slots at the end.
- `Schedule.allocateWith` and `Schedule.allocate`: the allocation, for given last reads and for
  those of the schedule itself.
-/

set_option autoImplicit false

namespace SlotPlan

/-- One step of the pass: the record of a value, and how its slot was chosen. -/
structure Assignment where
  /-- The record. -/
  record : Record
  /-- The claim that gave the slot. -/
  claim : Claim
deriving DecidableEq

/-- The whole pass. -/
structure AllocationPass where
  /-- One assignment for each operation, first to last. -/
  assignments : List Assignment
  /-- The slots at the end. -/
  table : SlotTable
deriving DecidableEq

namespace Liveness

/-- Gives slots to the values of operations that run from a position on, when the slots are as the
table says. -/
def assign (l : Liveness) (table : SlotTable) (position : Nat) : List Node → AllocationPass
  | [] => ⟨[], table⟩
  | n :: rest =>
    let lifetime := l.lifetime n.output
    let (claim, table) := table.claim position lifetime
    let record : Record := { output := n.output, slot := claim.slot, created := position, lifetime }
    let pass := l.assign table (position + 1) rest
    { pass with assignments := ⟨record, claim⟩ :: pass.assignments }

end Liveness

namespace Schedule

/-- The pass over a schedule, for given last reads. -/
def allocationPass (s : Schedule) (l : Liveness) : AllocationPass :=
  l.assign {} 0 s.nodes

/-- The allocation for given last reads. The schedule is taken as it is. -/
def allocateWith (s : Schedule) (l : Liveness) : Allocation where
  records := .ofList ((s.allocationPass l).assignments.map fun a => (a.record.output, a.record))
  liveness := l
  minSlots := s.bounds.1
  maxSlots := s.bounds.2

/-- The allocation for the last reads of the schedule itself. -/
def allocate (s : Schedule) : Allocation :=
  s.allocateWith s.liveness

end Schedule

end SlotPlan
