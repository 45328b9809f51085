import SlotPlan.Json.Layout
import SlotPlan.Plan
import SlotPlan.Wire.Graph

/-!
# Lifetimes, records, allocations and plans as JSON

A lifetime is written as the position of the last read, or as the empty value if it is unbounded.
Tables are written as objects, with their entries in order.
-/

set_option autoImplicit false

namespace SlotPlan

open Json

namespace Lifetime

/-- Reads a lifetime. -/
def decoder : Decoder Lifetime :=
  (Decoder.nullable .nat).map ofLastRead

/-- Writes a lifetime. -/
def encode : Lifetime → Doc
  | bounded last => .nat last
  | unbounded => .null

end Lifetime

namespace Liveness

/-- Reads a table of last reads. -/
def decoder : Decoder Liveness :=
  (Decoder.roster .nat).map Liveness.mk

/-- Writes a table of last reads. -/
def encode (l : Liveness) : Doc :=
  .fields (l.lastReads.entries.map fun (value, last) => (value, .nat last))

end Liveness

namespace Record

/-- How a record is written. -/
def layout : Layout Record where
  title := "struct AllocationRecord"
  blank := { output := "", slot := 0, created := 0, lifetime := .unbounded }
  fields := [
    .of "output" .always .text fun output r => { r with output },
    .of "binding" .always .nat fun slot r => { r with slot },
    .of "creationIndex" .always .nat fun created r => { r with created },
    .of "lifetime" .exceptInObject Lifetime.decoder fun lifetime r => { r with lifetime }]

/-- Reads a record. -/
def decoder : Decoder Record :=
  layout.decoder

/-- Writes a record. -/
def encode (r : Record) : Doc :=
  .fields [("output", .text r.output), ("binding", .nat r.slot), ("creationIndex", .nat r.created),
    ("lifetime", r.lifetime.encode)]

end Record

namespace Allocation

/-- How an allocation is written. -/
def layout : Layout Allocation where
  title := "struct Allocation"
  blank := default
  fields := [
    .of "allocations" .always (.roster Record.decoder) fun records a => { a with records },
    .of "lifetimes" .always Liveness.decoder fun liveness a => { a with liveness },
    .of "minBufferCount" .always .nat fun minSlots a => { a with minSlots },
    .of "maxBufferCount" .always .nat fun maxSlots a => { a with maxSlots }]

/-- Reads an allocation, and takes it as it is. -/
def decoder : Decoder Allocation :=
  layout.decoder

/-- Writes an allocation. -/
def encode (a : Allocation) : Doc :=
  .fields [("allocations", .fields (a.records.entries.map fun (value, r) => (value, r.encode))),
    ("lifetimes", a.liveness.encode), ("minBufferCount", .nat a.minSlots),
    ("maxBufferCount", .nat a.maxSlots)]

end Allocation

namespace Plan

/-- How a plan is written. -/
def layout : Layout Plan where
  title := "struct BufferPlan"
  blank := { schedule := ⟨[]⟩, allocation := default }
  fields := [
    .of "order" .always Schedule.decoder fun schedule p => { p with schedule },
    .of "allocation" .always Allocation.decoder fun allocation p => { p with allocation }]

/-- Reads a plan. Its schedule has to be valid; its allocation is taken as it is. -/
def decoder : Decoder Plan :=
  layout.decoder

/-- Writes a plan. -/
def encode (p : Plan) : Doc :=
  .fields [("order", p.schedule.encode), ("allocation", p.allocation.encode)]

end Plan

end SlotPlan
