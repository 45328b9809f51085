import SlotPlan.Lifetime
import SlotPlan.Roster
import SlotPlan.Schedule

/-!
# Liveness: the last read of every value

Going through a schedule from its first operation to its last, every mention of a value as an input
is a read at the position of the operation. Binding each read value to its position in that order
leaves every value with its last read, and the values in the order of their first read.

## What this module delivers

- `Liveness`: the last reads of the values that are read at all.
- `Schedule.readings`: the reads of a schedule, first to last.
- `Schedule.liveness`: the last reads of a schedule.
-/

set_option autoImplicit false

namespace SlotPlan

/-- The last read of every value that is read. -/
structure Liveness where
  /-- The values that are read, with the positions of their last reads. -/
  lastReads : Roster Nat
deriving DecidableEq

namespace Liveness

instance : Inhabited Liveness :=
  ⟨⟨.empty⟩⟩

/-- The position of the last read of a value. -/
def lastRead? (l : Liveness) (value : Name) : Option Nat :=
  l.lastReads.get? value

/-- The lifetime of a value: unbounded if it is not read. -/
def lifetime (l : Liveness) (value : Name) : Lifetime :=
  .ofLastRead (l.lastRead? value)

/-- The number of values that are read. -/
def size (l : Liveness) : Nat :=
  l.lastReads.size

/-- Whether two tables of last reads bind the same values to the same positions. -/
def agrees (l m : Liveness) : Bool :=
  l.lastReads.agrees m.lastReads

end Liveness

namespace Schedule

/-- Every mention of a value as an input, with the position of its reader, first to last. -/
def readings (s : Schedule) : List (Name × Nat) :=
  s.nodes.zipIdx.flatMap fun (n, position) => n.inputs.map fun input => (input, position)

/-- The last read of every value that the schedule reads. -/
def liveness (s : Schedule) : Liveness :=
  ⟨.ofList s.readings⟩

end Schedule

end SlotPlan
