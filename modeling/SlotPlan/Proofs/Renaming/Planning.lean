import SlotPlan.Proofs.Renaming.Sorting
import SlotPlan.Proofs.Schedule.Inputs

/-!
# Planning after renaming

Like sorting, the stages that follow it compare names for equality only: validation
(`Schedule.validate_rename`), the analysis of last reads (`Schedule.liveness_rename`) and the pass
that gives out slots (`Liveness.assign_rename`). So the plan of renamed operations is the renamed plan,
and where building or planning fails it fails for the same reason (`Graph.build_plan_rename`).
-/

set_option autoImplicit false

namespace SlotPlan

variable (f : Name ↪ Name)

/-! ## Validation -/

namespace Schedule

theorem checkFrom_rename (nodes : List Node) :
    ∀ produced : List Name, checkFrom (produced.map f) (nodes.map (Node.rename f)) =
      renameOutcome f id (checkFrom produced nodes) := by
  induction nodes with
  | nil => exact fun _ => rfl
  | cons n rest ih =>
      intro produced
      rw [List.map_cons, checkFrom, checkFrom, Node.rename, find?_missing_map]
      cases n.inputs.find? (· ∉ produced) with
      | some input => rfl
      | none =>
          by_cases hout : n.output ∈ produced
          · simp only [Option.map_none, mem_map_iff, hout, if_true]
            rfl
          · simp only [Option.map_none, mem_map_iff, hout, if_false]
            exact ih (n.output :: produced)

/-- **Validation accepts a renamed schedule as it accepts the schedule**, and reports the renamed
fault. -/
theorem validate_rename (s : Schedule) :
    (s.rename f).validate = renameOutcome f id s.validate :=
  checkFrom_rename f s.nodes []

theorem validated_rename (nodes : List Node) :
    validated (nodes.map (Node.rename f)) = renameOutcome f (rename f) (validated nodes) := by
  have hvalidate := validate_rename f ⟨nodes⟩
  simp only [rename] at hvalidate
  rw [validated, validated, hvalidate]
  cases validate ⟨nodes⟩ <;> rfl

/-! ## Last reads -/

theorem readings_rename (s : Schedule) :
    (s.rename f).readings = s.readings.map (Prod.map f id) := by
  have hreads : ∀ e : Node × Nat, ((e.1.rename f).inputs.map fun input => (input, e.2)) =
      (e.1.inputs.map fun input => (input, e.2)).map (Prod.map f id) := by
    intro e
    rw [Node.rename, List.map_map, List.map_map]
    rfl
  simp only [readings, rename, List.zipIdx_map, List.flatMap_map, List.map_flatMap]
  exact congrArg (List.flatMap · s.nodes.zipIdx) (funext hreads)

theorem liveness_rename (s : Schedule) : (s.rename f).liveness = s.liveness.rename f := by
  rw [liveness, readings_rename, ← Roster.rename_ofList]
  rfl

end Schedule

theorem Liveness.lifetime_rename (l : Liveness) (x : Name) :
    (l.rename f).lifetime (f x) = l.lifetime x := by
  have hlast : (l.rename f).lastRead? (f x) = l.lastRead? x := by
    show (l.lastReads.rename f id).get? (f x) = _
    rw [Roster.get?_rename, Option.map_id]
    rfl
  rw [lifetime, hlast, lifetime]

/-! ## Slots -/

/-- Renames the value. -/
def Assignment.rename (a : Assignment) : Assignment :=
  { a with record := a.record.rename f }

/-- **The pass gives the same slots after renaming.** -/
theorem Liveness.assign_rename (l : Liveness) (nodes : List Node) :
    ∀ (t : SlotTable) (position : Nat),
      (l.rename f).assign t position (nodes.map (Node.rename f)) =
        { assignments := (l.assign t position nodes).assignments.map (Assignment.rename f)
          table := (l.assign t position nodes).table } := by
  induction nodes with
  | nil => exact fun _ _ => rfl
  | cons n rest ih =>
      intro t position
      rw [List.map_cons, assign, assign, Node.rename, lifetime_rename]
      simp only [ih]
      rfl

namespace Node

theorem width_rename (n : Node) : (n.rename f).width = n.width := by
  have hinputs : (n.inputs.map f).toFinset = n.inputs.toFinset.map f := by
    apply Finset.ext
    intro x
    simp only [List.mem_toFinset, List.mem_map, Finset.mem_map]
  rw [width_eq_card, width_eq_card, rename, hinputs, Finset.card_map]

end Node

namespace Schedule

theorem bounds_rename (s : Schedule) : (s.rename f).bounds = s.bounds := by
  have hwidths : (s.rename f).nodes.map Node.width = s.nodes.map Node.width := by
    rw [rename, List.map_map]
    exact List.map_congr_left fun n _ => n.width_rename f
  rw [bounds, bounds, width, hwidths, size, rename, List.length_map]
  rfl

theorem allocate_rename (s : Schedule) : (s.rename f).allocate = s.allocate.rename f := by
  have hassignments : ((s.rename f).allocationPass (s.liveness.rename f)).assignments =
      (s.allocationPass s.liveness).assignments.map (Assignment.rename f) :=
    congrArg AllocationPass.assignments (Liveness.assign_rename f s.liveness s.nodes {} 0)
  have hrecords : s.allocate.records.rename f (Record.rename f) =
      .ofList (((s.allocationPass s.liveness).assignments.map (Assignment.rename f)).map
        fun a => (a.record.output, a.record)) := by
    rw [allocate, allocateWith, Roster.rename_ofList, List.map_map, List.map_map]
    rfl
  rw [Allocation.rename, hrecords, allocate, liveness_rename, allocateWith, hassignments,
    bounds_rename]
  rfl

end Schedule

namespace Graph

theorem schedule_rename (g : Graph) (config : Config) :
    (g.rename f).schedule config = renameOutcome f (Schedule.rename f) (g.schedule config) := by
  unfold schedule
  cases config.order with
  | topological => exact sort_rename f g config.cycles
  | declared => exact Schedule.validated_rename f g.nodes

theorem plan_rename (g : Graph) (config : Config) :
    (g.rename f).plan config = renameOutcome f (Plan.rename f) (g.plan config) := by
  rw [plan, plan, schedule_rename]
  apply renameOutcome_bind
  intro s
  rw [Schedule.allocate_rename]
  rfl

/-- **Planning depends on names only through equality.** If operations get new names, and different
names stay different, then building and planning them ends as before: with the renamed plan, in which
every value has the slot, the creation and the lifetime that it had under its old name, or with the
same error about renamed values. -/
theorem build_plan_rename (nodes : List Node) (config : Config) :
    (build (nodes.map (Node.rename f)) >>= fun g => g.plan config) =
        renameOutcome f (Plan.rename f) (build nodes >>= fun g => g.plan config) ∧
      ∀ (p : Plan) (x : Name),
        (p.rename f).allocation.get? (f x) = (p.allocation.get? x).map (Record.rename f) := by
  constructor
  · rw [build_rename]
    exact renameOutcome_bind f fun g => plan_rename f g config
  · intro p x
    exact Roster.get?_rename f _ _ x

end Graph

end SlotPlan
