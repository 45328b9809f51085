import SlotPlan.Json.Layout
import SlotPlan.Schedule

/-!
# Operations and schedules as JSON

An operation is written with its output and its inputs; the inputs may be left out if there are
none. A schedule is written as the array of its operations, and is only read if it is valid.
-/

set_option autoImplicit false

namespace SlotPlan

open Json

namespace Node

/-- How an operation is written. -/
def layout : Layout Node where
  title := "struct OperationNode"
  blank := { output := "" }
  fields := [
    .of "output" .always .text fun output n => { n with output },
    .of "inputs" .optional (.list .text) fun inputs n => { n with inputs }]

/-- Reads an operation. -/
def decoder : Decoder Node :=
  layout.decoder

/-- Writes an operation. -/
def encode (n : Node) : Doc :=
  .fields [("output", .text n.output), ("inputs", .list (n.inputs.map .text))]

end Node

namespace Schedule

/-- Reads a schedule, and refuses it unless it is valid. -/
def decoder : Decoder Schedule := fun d => do
  let nodes ← Decoder.list Node.decoder d
  (validated nodes).mapError .rejected

/-- Writes a schedule. -/
def encode (s : Schedule) : Doc :=
  .list (s.nodes.map Node.encode)

end Schedule

end SlotPlan
