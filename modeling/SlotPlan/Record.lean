import SlotPlan.Lifetime
import SlotPlan.Node

/-!
# Slots, and the records of who holds them

A slot is a place for one value at a time; slots are interchangeable and numbered from zero. A
record says which slot a value was given, when it was created and how long it is needed.

## What this module delivers

- `Slot` and `Record`.
- `Record.liveUntil`: a value holds its slot at least at its creation, also when its last read is
  recorded before that, as it may be when the last reads were not taken from the schedule.
- `Record.overlaps`: whether two values hold their slots at a common position.
-/

set_option autoImplicit false

namespace SlotPlan

/-- The number of a slot. -/
abbrev Slot := Nat

/-- A slot is displayed as its number behind a hash sign. -/
def Slot.label (s : Slot) : String :=
  "#" ++ toString s

/-- The slot of one value, and the time for which it holds it. -/
structure Record where
  /-- The value. -/
  output : Name
  /-- The slot it was given. -/
  slot : Slot
  /-- The position of the operation that produces it. -/
  created : Nat
  /-- How long it is needed. -/
  lifetime : Lifetime
deriving DecidableEq, Inhabited

namespace Record

/-- The last position at which the value holds its slot. -/
def liveUntil (r : Record) : Lifetime :=
  max r.lifetime (.bounded r.created)

/-- Whether both values hold their slots at some common position: each is created before the other
one is gone. -/
def overlaps (a b : Record) : Bool :=
  Lifetime.bounded a.created ≤ b.liveUntil && Lifetime.bounded b.created ≤ a.liveUntil

end Record

end SlotPlan
