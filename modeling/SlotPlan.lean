import SlotPlan.Plan.Trace
import SlotPlan.Wire.Allocation
import SlotPlan.Wire.Config
import SlotPlan.Proofs.Allocation.Width
import SlotPlan.Proofs.Plan.Execution
import SlotPlan.Proofs.Graph.Visits
import SlotPlan.Proofs.Graph.Tolerating
import SlotPlan.Proofs.Graph.CyclePath
import SlotPlan.Proofs.Graph.Refinement
import SlotPlan.Proofs.Plan.Bounds
import SlotPlan.Proofs.Plan.Lifetimes
import SlotPlan.Proofs.Plan.Consumption
import SlotPlan.Proofs.Json.Numeral
import SlotPlan.Proofs.Json.Quoted
import SlotPlan.Proofs.Json.Token
import SlotPlan.Proofs.Json.Doc
import SlotPlan.Proofs.Json.Reads
import SlotPlan.Proofs.Wire.RoundTrip
import SlotPlan.Proofs.Json.Presentation
import SlotPlan.Proofs.Wire.Plan
import SlotPlan.Proofs.Wire.Presentation
import SlotPlan.Proofs.Wire.RepeatedKeys
import SlotPlan.Proofs.Renaming.Values
import SlotPlan.Proofs.Graph.Building
import SlotPlan.Proofs.Renaming.Sorting
import SlotPlan.Proofs.Renaming.Planning
import SlotPlan.Proofs.Graph.Redeclaring
import SlotPlan.Proofs.Schedule.FirstRead
import SlotPlan.Proofs.Allocation.Reuse
import SlotPlan.Proofs.Allocation.Events
import SlotPlan.Proofs.Graph.Dropping
import SlotPlan.Proofs.Schedule.Positions
import SlotPlan.Proofs.Schedule.Declared
import SlotPlan.Proofs.Schedule.Invariant
import SlotPlan.Proofs.Allocation.Conflicts
import SlotPlan.Proofs.Allocation.Shortening
import SlotPlan.Proofs.Graph.Simulation
import SlotPlan.Proofs.Repeats.Sorting
import SlotPlan.Proofs.Repeats.Planning
import SlotPlan.Proofs.Graph.Components
import SlotPlan.Proofs.Graph.LoopHead
import SlotPlan.Proofs.Graph.Iterations
