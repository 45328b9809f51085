import SlotPlan.Config
import SlotPlan.Error
import SlotPlan.Json.Layout

/-!
# Configurations as JSON

Both choices of a configuration are written as words, and both may be left out. `Config.ofText`
reads a configuration for a planner, whose errors it uses.
-/

set_option autoImplicit false

namespace SlotPlan

open Json

namespace CyclePolicy

/-- Reads a policy. -/
def decoder : Decoder CyclePolicy :=
  .word [(reject.word, reject), (tolerate.word, tolerate)]

/-- Writes a policy. -/
def encode (p : CyclePolicy) : Doc :=
  .text p.word

end CyclePolicy

namespace OrderSource

/-- Reads a source of the order. -/
def decoder : Decoder OrderSource :=
  .word [(topological.word, topological), (declared.word, declared)]

/-- Writes a source of the order. -/
def encode (o : OrderSource) : Doc :=
  .text o.word

end OrderSource

namespace Config

/-- How a configuration is written. -/
def layout : Layout Config where
  title := "struct PlannerConfig"
  blank := {}
  fields := [
    .of "cycle_policy" .optional CyclePolicy.decoder fun cycles c => { c with cycles },
    .of "order" .optional OrderSource.decoder fun order c => { c with order }]

/-- Reads a configuration. -/
def decoder : Decoder Config :=
  layout.decoder

/-- What a planner reports about a configuration that cannot be read. -/
def fault (m : Mismatch) : Error :=
  .invalidConfig m.message

/-- The configuration in a text. -/
def ofText (s : String) : Except Error Config :=
  (decoder.run s).mapError fault

/-- Writes a configuration. -/
def encode (c : Config) : Doc :=
  .fields [("cycle_policy", c.cycles.encode), ("order", c.order.encode)]

end Config

end SlotPlan
