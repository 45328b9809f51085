/-!
# The choices a plan depends on

Two independent choices: what becomes of dependency cycles, and where the order comes from. Both
have a default, so the empty configuration is complete.
-/

set_option autoImplicit false

namespace SlotPlan

/-- What sorting does about dependency cycles. -/
inductive CyclePolicy where
  /-- A cycle is an error, wherever it is. -/
  | reject
  /-- A dependency that closes a cycle is dropped, and what no root depends on is left out. The
  schedule may lack operations or run one before one of its inputs. -/
  | tolerate
deriving DecidableEq

/-- Where the order of a schedule comes from. -/
inductive OrderSource where
  /-- The graph is sorted, depth first from its roots. -/
  | topological
  /-- The order of declaration is taken as it is, if it is valid. -/
  | declared
deriving DecidableEq

/-- The configuration of the planner. -/
structure Config where
  /-- What sorting does about cycles. -/
  cycles : CyclePolicy := .reject
  /-- Where the order comes from. -/
  order : OrderSource := .topological
deriving DecidableEq

instance : Inhabited Config :=
  ⟨{}⟩

namespace CyclePolicy

/-- The word that stands for a policy in a configuration. -/
def word : CyclePolicy → String
  | reject => "reject"
  | tolerate => "tolerate"

end CyclePolicy

namespace OrderSource

/-- The word that stands for a source of the order in a configuration. -/
def word : OrderSource → String
  | topological => "topological"
  | declared => "declared"

end OrderSource

end SlotPlan
