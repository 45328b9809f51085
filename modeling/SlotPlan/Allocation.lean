import SlotPlan.Liveness
import SlotPlan.Record

/-!
# Allocations: a slot for every value

An allocation binds the values of a schedule to slots. It keeps the last reads it was made with and
two bounds on the number of slots. An allocation can also be made by hand; then nothing is promised
about it, and `Allocation.conflicts` tells whether it is sound.

## What this module delivers

- `Allocation`, with `Allocation.get?` and `Allocation.slotOf?`.
- `Allocation.slotsUsed`: the number of different slots.
- `Allocation.conflicts`: the pairs of values that share a slot at a common position.
- `Schedule.bounds`: the least and the greatest number of slots that a schedule can ask for.
-/

set_option autoImplicit false

namespace SlotPlan

/-- A slot for every value. -/
structure Allocation where
  /-- The records, by the name of the value. -/
  records : Roster Record
  /-- The last reads that the slots were given by. -/
  liveness : Liveness
  /-- A lower bound on the number of slots. -/
  minSlots : Nat
  /-- An upper bound on the number of slots. -/
  maxSlots : Nat
deriving DecidableEq, Inhabited

namespace Allocation

/-- The record of a value. -/
def get? (a : Allocation) (value : Name) : Option Record :=
  a.records.get? value

/-- The slot of a value. -/
def slotOf? (a : Allocation) (value : Name) : Option Slot :=
  (a.get? value).map Record.slot

/-- The number of records. -/
def size (a : Allocation) : Nat :=
  a.records.size

/-- The number of different slots that the records name. -/
def slotsUsed (a : Allocation) : Nat :=
  (a.records.values.map Record.slot).eraseDups.length

/-- The pairs of records, an earlier one before a later one, that share a slot while both are
live. -/
def conflictsAmong : List Record → List (Record × Record)
  | [] => []
  | a :: rest =>
    (rest.filter fun b => a.slot = b.slot && a.overlaps b).map (fun b => (a, b)) ++
      conflictsAmong rest

/-- The pairs of records that share a slot while both are live. -/
def conflicts (a : Allocation) : List (Record × Record) :=
  conflictsAmong a.records.values

/-- Whether two allocations are the same up to the order of their entries. -/
def agrees (a b : Allocation) : Bool :=
  a.records.agrees b.records && a.liveness.agrees b.liveness && a.minSlots == b.minSlots &&
    a.maxSlots == b.maxSlots

end Allocation

namespace Schedule

/-- The number of distinct inputs of the widest operation, zero if there is none. -/
def width (s : Schedule) : Nat :=
  (s.nodes.map Node.width).foldl max 0

/-- Bounds on the number of slots. The widest operation needs one for each of its inputs and one for
its output; no schedule needs more than one for each operation beyond those inputs. -/
def bounds (s : Schedule) : Nat × Nat :=
  (s.width + 1, s.size + s.width)

end Schedule

end SlotPlan
