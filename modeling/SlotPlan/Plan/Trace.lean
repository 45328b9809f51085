import SlotPlan.Plan
import SlotPlan.Traced

/-!
# The events of planning

Each stage of planning reports what it did. The events never decide anything: without them the
traced computations are the plain ones (`result_buildTraced`, `result_sortTraced`,
`result_planTraced`).
-/

set_option autoImplicit false

namespace SlotPlan

/-- What sorting reports at the end: the dropped dependencies in the order in which the walk met
them, and the operations that were left out, if there are any. -/
def Sorting.events (s : Sorting) : List Event :=
  s.dropped.map (fun (node, input) => .dependencyDropped node input) ++
    if s.unreached > 0 then [.operationsOmitted s.unreached] else []

/-- What the analysis of last reads reports: how many values are read, and how many are left. -/
def Schedule.livenessEvent (s : Schedule) : Event :=
  .livenessComputed s.liveness.size (s.size - s.liveness.size)

/-- What an assignment reports. -/
def Assignment.event (a : Assignment) : Event :=
  .valueBound a.record.created a.record.output a.claim.slot a.claim.reused a.claim.candidates

/-- What the allocation for given last reads reports: every assignment, and a summary. -/
def Schedule.allocationEvents (s : Schedule) (l : Liveness) : List Event :=
  let pass := s.allocationPass l
  pass.assignments.map Assignment.event ++
    [.allocationComplete pass.table.size s.bounds.1 s.bounds.2]

namespace Graph

/-- Builds a graph, and reports its size. -/
def buildTraced (nodes : List Node) : Traced Graph := do
  let g ← .silently (build nodes)
  .report [.graphBuilt g.size]
  return g

/-- Sorts a graph, and reports what was given up for it. -/
def sortTraced (g : Graph) (policy : CyclePolicy) : Traced Schedule := do
  .report [.sorting g.roots.length g.size]
  let sorting ← .silently (g.sorting policy)
  .report sorting.events
  return sorting.schedule

/-- Makes the schedule that a configuration asks for. Taking the declared order reports nothing. -/
def scheduleTraced (g : Graph) (config : Config) : Traced Schedule :=
  match config.order with
  | .topological => g.sortTraced config.cycles
  | .declared => .silently (Schedule.declared g)

/-- Plans a graph, and reports every stage. -/
def planTraced (g : Graph) (config : Config) : Traced Plan := do
  .report [.planning g.size config.order]
  let schedule ← g.scheduleTraced config
  .report [.orderReady schedule.size, schedule.livenessEvent]
  .report (schedule.allocationEvents schedule.liveness)
  let plan : Plan := { schedule, allocation := schedule.allocate }
  .report [.planComplete plan.slotsUsed plan.allocation.minSlots plan.allocation.maxSlots]
  return plan

/-! ## Events decide nothing -/

theorem result_buildTraced (nodes : List Node) : (buildTraced nodes).result = build nodes := by
  unfold buildTraced
  cases build nodes <;> rfl

theorem result_sortTraced (g : Graph) (policy : CyclePolicy) :
    (g.sortTraced policy).result = g.sort policy := by
  unfold sortTraced sort
  cases g.sorting policy <;> rfl

theorem result_scheduleTraced (g : Graph) (config : Config) :
    (g.scheduleTraced config).result = g.schedule config := by
  unfold scheduleTraced schedule
  cases config.order with
  | topological => exact g.result_sortTraced config.cycles
  | declared => rfl

theorem result_planTraced (g : Graph) (config : Config) :
    (g.planTraced config).result = g.plan config := by
  unfold planTraced plan
  simp only [Traced.result_bind, Traced.result_report, result_scheduleTraced]
  cases g.schedule config <;> rfl

/-! ## What sorting reports -/

/-- Sorting that succeeds reports its size first, and what was given up at the end. -/
theorem events_sortTraced {g : Graph} {policy : CyclePolicy} {r : Sorting}
    (h : g.sorting policy = .ok r) :
    (g.sortTraced policy).events = .sorting g.roots.length g.size :: r.events := by
  rw [sortTraced, Traced.events_bind_ok _ (Traced.result_report _),
    Traced.events_bind_ok _ ((Traced.result_silently _).trans h),
    Traced.events_bind_ok _ (Traced.result_report _)]
  show [_] ++ ([] ++ (r.events ++ [])) = _
  rw [List.append_nil]
  rfl

end Graph

end SlotPlan
