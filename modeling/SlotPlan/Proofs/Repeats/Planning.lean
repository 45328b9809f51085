import SlotPlan.Proofs.Repeats.Sorting
import SlotPlan.Proofs.Schedule.Inputs
import SlotPlan.Proofs.Schedule.LastRead

/-!
# Planning without repeated inputs

The stages that follow sorting do not count mentions either. Validation finds the same fault first
(`Schedule.validated_dedup`). A value that is mentioned again by an operation has its last read at
the same position as before, and its entry where it was (`Roster.ofList_append_eraseDups`), so the
table of last reads is the same (`Schedule.liveness_dedup`), and with it all slots. The bounds count
distinct inputs (`Node.width_dedup`). So only the lists of inputs tell the plan from that of the
operations without repeats (`Graph.build_plan_dedup`).
-/

set_option autoImplicit false

namespace SlotPlan

/-! ## Validation -/

namespace Schedule

theorem checkFrom_dedup (nodes : List Node) :
    ∀ produced : List Name,
      checkFrom produced (nodes.map Node.dedup) = checkFrom produced nodes := by
  induction nodes with
  | nil => exact fun _ => rfl
  | cons n rest ih =>
      intro produced
      rw [List.map_cons, checkFrom, checkFrom, Node.dedup, Node.reads, find?_eraseDups, ih]

/-- Validation accepts the same operations, and reports the same fault. -/
theorem validated_dedup (nodes : List Node) :
    validated (nodes.map Node.dedup) = (validated nodes).map dedup := by
  rw [validated, validated, validate, validate, checkFrom_dedup]
  cases checkFrom [] nodes <;> rfl

theorem outputs_dedup (s : Schedule) : s.dedup.outputs = s.outputs :=
  Node.map_output_dedup s.nodes

end Schedule

/-! ## Last reads -/

/-- Binding a name to the same value again changes nothing. -/
theorem Roster.ofList_append_eraseDups (es : List (Name × Nat)) (xs : List Name)
    (position : Nat) :
    ofList (es ++ xs.eraseDups.map fun x => (x, position)) =
      ofList (es ++ xs.map fun x => (x, position)) := by
  induction xs using List.reverseRecOn with
  | nil => rfl
  | append_singleton xs x ih =>
      rw [eraseDups_concat, List.map_append, List.map_singleton, ← List.append_assoc, ofList_concat]
      split
      · rename_i hx
        have hbound : (ofList (es ++ xs.map fun x => (x, position))).get? x = some position := by
          rw [get?_ofList, List.reverse_append, ← List.map_reverse, List.lookup_append,
            Schedule.lookup_map_pair, if_pos (List.mem_reverse.2 hx), Option.some_or]
        rw [ih, put_of_get? hbound]
      · rw [List.map_append, List.map_singleton, ← List.append_assoc, ofList_concat, ih]

namespace Schedule

/-- **The table of last reads is the same**, with its entries in the same order. -/
theorem liveness_dedup (s : Schedule) : s.dedup.liveness = s.liveness := by
  obtain ⟨nodes⟩ := s
  induction nodes using List.reverseRecOn with
  | nil => rfl
  | append_singleton nodes n ih =>
      have ih : Roster.ofList (readings ⟨nodes.map Node.dedup⟩) = .ofList (readings ⟨nodes⟩) :=
        congrArg Liveness.lastReads ih
      rw [dedup, List.map_append, List.map_singleton, liveness, readings_concat, List.length_map,
        Node.dedup, Node.reads, Roster.ofList_append_eraseDups, Roster.ofList_append, ih,
        ← Roster.ofList_append, ← readings_concat, liveness]

end Schedule

/-! ## Slots -/

/-- The pass that gives out slots does not look at inputs. -/
theorem Liveness.assign_dedup (l : Liveness) (nodes : List Node) :
    ∀ (t : SlotTable) (position : Nat),
      l.assign t position (nodes.map Node.dedup) = l.assign t position nodes := by
  induction nodes with
  | nil => exact fun _ _ => rfl
  | cons n rest ih =>
      intro t position
      rw [List.map_cons, assign, assign]
      simp only [ih]
      rfl

namespace Node

theorem width_dedup (n : Node) : n.dedup.width = n.width := by
  have hinputs : n.dedup.inputs.toFinset = n.inputs.toFinset := by
    apply Finset.ext
    intro x
    rw [List.mem_toFinset, List.mem_toFinset, mem_inputs_dedup]
  rw [width_eq_card, width_eq_card, hinputs]

end Node

namespace Schedule

theorem bounds_dedup (s : Schedule) : s.dedup.bounds = s.bounds := by
  have hwidths : s.dedup.nodes.map Node.width = s.nodes.map Node.width := by
    rw [dedup, List.map_map]
    exact List.map_congr_left fun n _ => n.width_dedup
  rw [bounds, bounds, width, hwidths, size, dedup, List.length_map]
  rfl

/-- **Every value keeps its slot**, and the bounds stay the same. -/
theorem allocate_dedup (s : Schedule) : s.dedup.allocate = s.allocate := by
  have hpass : s.dedup.allocationPass s.liveness = s.allocationPass s.liveness :=
    s.liveness.assign_dedup s.nodes {} 0
  rw [allocate, liveness_dedup, allocateWith, hpass, bounds_dedup]
  rfl

end Schedule

/-! ## Plans -/

/-- Lists every input of every operation once. The allocation does not name inputs. -/
def Plan.dedup (p : Plan) : Plan :=
  { p with schedule := p.schedule.dedup }

namespace Graph

theorem schedule_dedup (g : Graph) (config : Config) :
    g.dedup.schedule config = (g.schedule config).map Schedule.dedup := by
  unfold schedule
  cases config.order with
  | topological => exact sort_dedup g config.cycles
  | declared => exact Schedule.validated_dedup g.nodes

theorem plan_dedup (g : Graph) (config : Config) :
    g.dedup.plan config = (g.plan config).map Plan.dedup := by
  rw [plan, plan, schedule_dedup]
  cases g.schedule config with
  | error e => rfl
  | ok s =>
      show Except.ok (Plan.mk s.dedup s.dedup.allocate) = .ok (Plan.mk s.dedup s.allocate)
      rw [Schedule.allocate_dedup]

/-- **Repeated inputs change nothing.** If every operation lists each of its inputs once, at its
first mention, then building and planning the operations ends as before: with the same error, or
with the same plan without the repeats. In that plan the values are produced in the same order, and
the allocation is the same: its records, its last reads in their order, and its bounds. -/
theorem build_plan_dedup (nodes : List Node) (config : Config) :
    build (nodes.map Node.dedup) = (build nodes).map dedup ∧
      (build (nodes.map Node.dedup) >>= fun g => g.plan config) =
        (build nodes >>= fun g => g.plan config).map Plan.dedup ∧
      ∀ p : Plan, p.dedup.schedule.outputs = p.schedule.outputs ∧
        p.dedup.allocation = p.allocation := by
  refine ⟨build_dedup nodes, ?_, fun p => ⟨p.schedule.outputs_dedup, rfl⟩⟩
  rw [build_dedup]
  cases build nodes with
  | error e => rfl
  | ok g => exact plan_dedup g config

end Graph

end SlotPlan
