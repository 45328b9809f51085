import SlotPlan.Config
import SlotPlan.Record

/-!
# Events: what planning reports while it runs

Every event has a level, a fixed message, and fields that carry the numbers and names of the case.
-/

set_option autoImplicit false

namespace SlotPlan

/-- How much an event matters, from least to most. -/
inductive Level where
  | trace
  | debug
  | info
  | warn
deriving DecidableEq

/-- The content of a field. -/
inductive Datum where
  /-- A count, a position or a slot. -/
  | number (n : Nat)
  /-- A yes or a no. -/
  | flag (b : Bool)
  /-- A name or a word. -/
  | text (s : String)
deriving DecidableEq

/-- Something that happened during planning. -/
inductive Event where
  /-- A graph of `nodes` operations was built. -/
  | graphBuilt (nodes : Nat)
  /-- A plan for `nodes` operations is begun, with the order taken from `order`. -/
  | planning (nodes : Nat) (order : OrderSource)
  /-- A walk over `nodes` operations sets out from `roots` roots. -/
  | sorting (roots nodes : Nat)
  /-- The dependency of `node` on `input` was dropped, because it closes a cycle. -/
  | dependencyDropped (node input : Name)
  /-- The number `unreached` of operations were left out, because no root depends on them. -/
  | operationsOmitted (unreached : Nat)
  /-- The schedule stands, with `scheduled` operations. -/
  | orderReady (scheduled : Nat)
  /-- The last reads are known: `consumed` values are read, `unbounded` ones are not. -/
  | livenessComputed (consumed unbounded : Nat)
  /-- The value that is created at `position` was given `slot`, one of `candidates` free slots if it
  is `reused`. -/
  | valueBound (position : Nat) (value : Name) (slot : Slot) (reused : Bool) (candidates : Nat)
  /-- All values have slots; `slots` have been opened. -/
  | allocationComplete (slots minSlots maxSlots : Nat)
  /-- The plan is made, and uses `slots` slots. -/
  | planComplete (slots minSlots maxSlots : Nat)
deriving DecidableEq

namespace Event

/-- How much an event matters. -/
def level : Event → Level
  | planning .. | orderReady .. | planComplete .. => .info
  | dependencyDropped .. | operationsOmitted .. => .warn
  | valueBound .. => .trace
  | graphBuilt .. | sorting .. | livenessComputed .. | allocationComplete .. => .debug

/-- What an event says. -/
def message : Event → String
  | graphBuilt .. => "graph model built"
  | planning .. => "planning buffers"
  | sorting .. => "sorting from roots"
  | dependencyDropped .. => "dropping dependency edge that closes a cycle"
  | operationsOmitted .. => "omitting nodes unreachable from any root"
  | orderReady .. => "program order ready"
  | livenessComputed .. => "liveness computed"
  | valueBound .. => "bound value"
  | allocationComplete .. => "allocation complete"
  | planComplete .. => "buffer plan complete"

/-- A source of the order, as it is named in events. -/
def orderTitle : OrderSource → String
  | .topological => "Topological"
  | .declared => "Declared"

/-- The fields of an event. -/
def fields : Event → List (String × Datum)
  | graphBuilt nodes => [("nodes", .number nodes)]
  | planning nodes order => [("nodes", .number nodes), ("order", .text (orderTitle order))]
  | sorting roots nodes => [("roots", .number roots), ("nodes", .number nodes)]
  | dependencyDropped node input => [("node", .text node), ("input", .text input)]
  | operationsOmitted unreached => [("unreached", .number unreached)]
  | orderReady scheduled => [("scheduled", .number scheduled)]
  | livenessComputed consumed unbounded =>
    [("consumed", .number consumed), ("unbounded", .number unbounded)]
  | valueBound position value slot reused candidates =>
    [("position", .number position), ("value", .text value), ("slot", .number slot),
      ("reused", .flag reused), ("candidates", .number candidates)]
  | allocationComplete slots minSlots maxSlots =>
    [("slots", .number slots), ("min_buffer_count", .number minSlots),
      ("max_buffer_count", .number maxSlots)]
  | planComplete slots minSlots maxSlots =>
    [("slots", .number slots), ("min", .number minSlots), ("max", .number maxSlots)]

end Event

end SlotPlan
