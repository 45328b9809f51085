import SlotPlan.Record

/-!
# The table of slots during an allocation

The table knows, for every slot that has been opened, the value that holds it last. A slot is free
at a position when the last read of that value comes before the position; a free slot is never
closed, only taken again.

## What this module delivers

- `SlotTable` and `SlotTable.free`.
- `SlotTable.claim`: the slot for a new value. Of the free slots it is the one that was filled most
  recently; if there is none, a new slot is opened.
-/

set_option autoImplicit false

namespace SlotPlan

/-- The value that holds a slot, as far as its reuse depends on it. -/
structure Occupant where
  /-- The position at which the value was created. -/
  created : Nat
  /-- How long it is needed. -/
  lifetime : Lifetime
deriving DecidableEq

/-- The latest occupant of every slot that has been opened, in the order of the slots. -/
structure SlotTable where
  /-- The occupant of slot `0`, of slot `1`, and so on. -/
  occupants : List Occupant := []
deriving DecidableEq

/-- The slot that a new value gets, and how it was chosen. -/
structure Claim where
  /-- The slot. -/
  slot : Slot
  /-- Whether the slot has held another value before. -/
  reused : Bool
  /-- The number of slots that were free. -/
  candidates : Nat
deriving DecidableEq

namespace SlotTable

/-- The number of slots that have been opened. -/
def size (t : SlotTable) : Nat :=
  t.occupants.length

/-- The slots that are free at a position, with their latest occupants, in the order of the
slots. -/
def free (t : SlotTable) (position : Nat) : List (Occupant × Slot) :=
  t.occupants.zipIdx.filter fun (occupant, _) => occupant.lifetime.endsBefore position

/-- Gives a slot to a value that is created at a position: the free slot whose occupant was created
last, or else a new one. -/
def claim (t : SlotTable) (position : Nat) (lifetime : Lifetime) : Claim × SlotTable :=
  let newcomer : Occupant := ⟨position, lifetime⟩
  let free := t.free position
  match free.maxOn? (·.1.created) with
  | some (_, slot) => (⟨slot, true, free.length⟩, ⟨t.occupants.set slot newcomer⟩)
  | none => (⟨t.size, false, free.length⟩, ⟨t.occupants ++ [newcomer]⟩)

end SlotTable

end SlotPlan
