/-!
# Lifetimes

The lifetime of a value ends with its last read. A value that nothing reads is a result, and lives
for ever.

## What this module delivers

- `Lifetime`, with its order: bounded lifetimes by their last read, and the unbounded one after all
  of them (`bounded_le_bounded`, `le_unbounded`, `not_unbounded_le_bounded`).
- `Lifetime.endsBefore`: whether a value is read no more at a position.
-/

set_option autoImplicit false

namespace SlotPlan

/-- How long a value is needed. -/
inductive Lifetime where
  /-- The value is last read at this position. -/
  | bounded (last : Nat)
  /-- The value is never read, and kept for ever. -/
  | unbounded
deriving DecidableEq

namespace Lifetime

instance : Inhabited Lifetime :=
  ⟨unbounded⟩

/-- The lifetime of a value with the given last read, if it has one. -/
def ofLastRead : Option Nat → Lifetime
  | some last => bounded last
  | none => unbounded

/-- The position of the last read, if there is one. -/
def lastRead? : Lifetime → Option Nat
  | bounded last => some last
  | unbounded => none

/-- Whether the value is kept for ever. -/
def isUnbounded (l : Lifetime) : Bool :=
  l.lastRead?.isNone

/-- Whether the last read comes strictly before a position. -/
def endsBefore : Lifetime → Nat → Bool
  | bounded last, position => last < position
  | unbounded, _ => false

/-! ## Order -/

/-- A lifetime is at most another one when it ends no later. -/
protected def le : Lifetime → Lifetime → Prop
  | bounded a, bounded b => a ≤ b
  | _, unbounded => True
  | unbounded, bounded _ => False

instance : LE Lifetime :=
  ⟨Lifetime.le⟩

instance : DecidableLE Lifetime
  | bounded a, bounded b => inferInstanceAs (Decidable (a ≤ b))
  | bounded _, unbounded => isTrue trivial
  | unbounded, unbounded => isTrue trivial
  | unbounded, bounded _ => isFalse id

/-- The longer of two lifetimes. -/
instance : Max Lifetime :=
  ⟨fun a b => if a ≤ b then b else a⟩

/-- The shorter of two lifetimes. -/
instance : Min Lifetime :=
  ⟨fun a b => if a ≤ b then a else b⟩

instance : Ord Lifetime where
  compare a b := if a = b then .eq else if a ≤ b then .lt else .gt

@[simp]
theorem bounded_le_bounded {a b : Nat} : bounded a ≤ bounded b ↔ a ≤ b :=
  Iff.rfl

@[simp]
theorem le_unbounded {l : Lifetime} : l ≤ unbounded := by
  cases l <;> trivial

@[simp]
theorem not_unbounded_le_bounded {a : Nat} : ¬ unbounded ≤ bounded a :=
  id

@[simp]
theorem endsBefore_bounded {last position : Nat} :
    (bounded last).endsBefore position = true ↔ last < position := by
  simp [endsBefore]

@[simp]
theorem endsBefore_unbounded {position : Nat} : unbounded.endsBefore position = false :=
  rfl

end Lifetime

end SlotPlan
