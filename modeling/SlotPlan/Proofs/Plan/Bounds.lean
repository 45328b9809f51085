import SlotPlan.Proofs.Allocation.Width
import SlotPlan.Proofs.Graph.Policies
import SlotPlan.Proofs.Plan.Execution
import SlotPlan.Proofs.Schedule.Inputs

/-!
# The bounds on the number of slots

In a valid schedule all distinct inputs of an operation are live when it runs, and so is its output,
which is none of them (`Schedule.Valid.width_lt_widthAt`). The slots that are used are at least as
many as the values that are live at the widest operation, and at most as many as there are
operations (`Graph.slotsUsed_withinBounds`).

The bounds themselves only depend on which operations are scheduled. So all plans of a graph whose
declared order is valid name the same bounds, wherever their order comes from
(`Graph.bounds_of_operations`).
-/

set_option autoImplicit false

namespace SlotPlan

/-- The number of slots lies within the bounds that an allocation of a schedule names. -/
structure Allocation.WithinBounds (a : Allocation) (s : Schedule) : Prop where
  /-- The lower bound is one more than the greatest number of distinct inputs of an operation. -/
  minSlots_eq : a.minSlots = (s.nodes.toFinset.sup fun n => n.inputs.toFinset.card) + 1
  /-- No fewer slots are used than the lower bound says. -/
  minSlots_le : a.minSlots ≤ a.slotsUsed
  /-- There are no more slots than operations. -/
  slotsUsed_le : a.slotsUsed ≤ s.size
  /-- The upper bound allows one slot for each operation. -/
  size_le : s.size ≤ a.maxSlots

namespace Schedule

/-- In a valid schedule no operation reads its own output. -/
theorem Valid.not_mem_inputs {s : Schedule} (h : s.Valid) {n : Node} (hn : n ∈ s.nodes) :
    n.output ∉ n.inputs := fun hself =>
  Nat.lt_irrefl _ (h.idxOf_lt_idxOf hn hself)

/-- What an operation of a valid schedule reads is live when the operation runs. -/
theorem Valid.exists_liveAt_of_readAt {s : Schedule} (h : s.Valid) {x : Name} {i : Nat}
    (hread : s.ReadAt x i) : ∃ r ∈ s.allocate.records.values, r.output = x ∧ r.LiveAt i := by
  obtain ⟨j, hlt, hproduced⟩ := h.exists_producedAt hread
  obtain ⟨r, hr, rfl, rfl⟩ := hproduced.exists_record h.nodup_outputs s.liveness
  have hends := endsBefore_of_readAt h.nodup_outputs hr hread (Nat.le_refl i)
  exact ⟨r, hr, rfl, Record.liveAt_of_endsBefore_eq_false (Nat.le_of_lt hlt) hends⟩

/-- **When an operation of a valid schedule runs, its distinct inputs and its output are live.** -/
theorem Valid.width_lt_widthAt {s : Schedule} (h : s.Valid) {i : Nat} {n : Node}
    (hn : s.get? i = some n) : n.width < s.allocate.widthAt i := by
  have hnodup : (n.output :: n.reads).Nodup := by
    refine List.nodup_cons.2 ⟨?_, n.nodup_reads⟩
    rw [Node.mem_reads]
    exact h.not_mem_inputs (List.mem_of_getElem? hn)
  have hsubset : n.output :: n.reads ⊆
      (s.allocate.records.values.filter fun r => r.LiveAt i).map Record.output := by
    intro x hx
    have hlive : ∃ r ∈ s.allocate.records.values, r.output = x ∧ r.LiveAt i := by
      rcases List.mem_cons.1 hx with rfl | hx
      · obtain ⟨r, hr, houtput, rfl⟩ := exists_record h.nodup_outputs s.liveness hn
        exact ⟨r, hr, houtput, r.liveAt_created⟩
      · exact h.exists_liveAt_of_readAt ⟨n, hn, Node.mem_reads.1 hx⟩
    obtain ⟨r, hr, rfl, hlive⟩ := hlive
    exact List.mem_map_of_mem (List.mem_filter.2 ⟨hr, decide_eq_true hlive⟩)
  have hle := (hnodup.subperm hsubset).length_le
  rwa [List.length_map, ← List.countP_eq_length_filter] at hle

/-- The widest operation of a valid schedule needs as many slots as the lower bound says. -/
theorem Valid.minSlots_le_slotsUsed {s : Schedule} (h : s.Valid) (hnonempty : s.nodes ≠ []) :
    s.allocate.minSlots ≤ s.allocate.slotsUsed := by
  obtain ⟨n, hn, hwidth⟩ := exists_width_eq hnonempty
  obtain ⟨i, hi⟩ := List.getElem?_of_mem hn
  calc s.allocate.minSlots
      = n.width + 1 := congrArg (· + 1) hwidth.symm
    _ ≤ s.allocate.widthAt i := h.width_lt_widthAt hi
    _ ≤ s.allocate.slotsUsed :=
        Allocation.widthAt_le_slotsUsed (conflicts_allocateWith h.nodup_outputs _) i

/-- No schedule that produces every value once takes more slots than it has operations. -/
theorem slotsUsed_le_size {s : Schedule} (h : s.outputs.Nodup) (l : Liveness) :
    (s.allocateWith l).slotsUsed ≤ s.size := by
  apply slotsUsed_le_of_widthAt_le h
  intro p _
  have hlength := congrArg List.length (map_created_values h l)
  rw [List.length_map, List.length_range] at hlength
  exact hlength ▸ List.countP_le_length

theorem Valid.withinBounds {s : Schedule} (h : s.Valid) (hnonempty : s.nodes ≠ []) :
    s.allocate.WithinBounds s where
  minSlots_eq := congrArg (· + 1) s.width_eq_sup_card
  minSlots_le := h.minSlots_le_slotsUsed hnonempty
  slotsUsed_le := slotsUsed_le_size h.nodup_outputs _
  size_le := Nat.le_add_right _ _

end Schedule

namespace Graph

/-- **The number of slots lies within its bounds.** This holds of the allocation of every schedule that
is not empty and passes validation, and so of every plan of a graph that is not empty, if cycles are
rejected or the schedule is the declared one. -/
theorem slotsUsed_withinBounds :
    (∀ s : Schedule, s.nodes ≠ [] → s.validate = .ok () → s.allocate.WithinBounds s) ∧
      ∀ (g : Graph) (config : Config) (p : Plan), g.nodes ≠ [] → g.plan config = .ok p →
        config.cycles = .reject ∨ config.order = .declared →
          p.allocation.WithinBounds p.schedule := by
  constructor
  · intro s hnonempty hvalidate
    exact (Schedule.validate_eq_ok_iff.1 hvalidate).withinBounds hnonempty
  · intro g config p hnonempty hplan hconfig
    obtain ⟨s, hs, rfl⟩ := exists_of_plan hplan
    apply (valid_of_schedule hs hconfig).withinBounds
    intro hempty
    exact hnonempty (List.Perm.nil_eq (hempty ▸ perm_of_schedule hs hconfig)).symm

/-- Two operations share their inputs, and list some of them twice; the graph is declared from its end
to its start. -/
theorem slotsUsed_withinBounds_of_shared_inputs :
    let s : Schedule := ⟨[⟨"a", []⟩, ⟨"b", ["a"]⟩, ⟨"c", ["a", "b", "a"]⟩, ⟨"d", ["b", "c", "c"]⟩]⟩
    let g : Graph := ⟨s.nodes.reverse, by decide, by decide⟩
    let p : Plan := ⟨s, s.allocate⟩
    s.nodes ≠ [] ∧ s.validate = .ok () ∧ s.allocate.WithinBounds s ∧
      g.plan {} = .ok p ∧ p.allocation.WithinBounds p.schedule ∧
      (p.allocation.minSlots, p.slotsUsed, p.schedule.size, p.allocation.maxSlots) = (3, 3, 4, 6) := by
  intro s g p
  have hsort : g.sort .reject = .ok s := by decide +kernel
  have hplan : g.plan {} = .ok p := by
    show (g.sort .reject).bind _ = _
    rw [hsort]
    rfl
  have hvalidate : s.validate = .ok () := by decide
  obtain ⟨hschedule, hplans⟩ := slotsUsed_withinBounds
  refine ⟨by decide, hvalidate, hschedule s (by decide) hvalidate, hplan, ?_, by decide⟩
  exact hplans g {} p (by decide) hplan (.inl rfl)

/-! ## Plans of the same operations -/

/-- A graph whose declared order is valid has a schedule in every configuration, and all operations
are in it. -/
theorem exists_schedule_of_valid {g : Graph} (h : Schedule.Valid ⟨g.nodes⟩) (config : Config) :
    ∃ s, g.schedule config = .ok s ∧ s.nodes.Perm g.nodes := by
  unfold schedule
  cases config.order with
  | declared =>
      refine ⟨⟨g.nodes⟩, ?_, List.Perm.refl _⟩
      exact Schedule.validated_eq_ok_iff.2 ⟨rfl, Schedule.validate_eq_ok_iff.2 h⟩
  | topological =>
      obtain ⟨s, hsort⟩ := exists_sort_reject_of_acyclic (acyclic_of_valid h (List.Perm.refl _))
      refine ⟨s, ?_, perm_of_sort_reject hsort⟩
      -- There is no cycle, so it does not matter what is done about cycles.
      cases config.cycles with
      | reject => exact hsort
      | tolerate => exact sort_tolerate_of_sort_reject hsort

/-- **The bounds only depend on which operations are scheduled.** The width of an operation counts the
inputs that are not listed before, and these are as many as the values that the operation reads. The
bounds of a schedule come from the greatest such number and from the number of operations, so
schedules with the same operations have the same bounds. If the declared order of a graph is valid,
the graph has a plan in every configuration, and all its plans name the same bounds. -/
theorem bounds_of_operations :
    (∀ n : Node, n.width = ((cuts n.inputs).countP fun (earlier, x) => x ∉ earlier) ∧
        n.width = n.inputs.toFinset.card) ∧
      (∀ s : Schedule,
        let widest := s.nodes.toFinset.sup fun n => n.inputs.toFinset.card
        s.bounds = (widest + 1, s.size + widest)) ∧
      (∀ s s' : Schedule, s.nodes.Perm s'.nodes → s.bounds = s'.bounds) ∧
      ∀ g : Graph, Schedule.validate ⟨g.nodes⟩ = .ok () →
        ∀ config : Config, ∃ p, g.plan config = .ok p ∧
          (p.allocation.minSlots, p.allocation.maxSlots) = Schedule.bounds ⟨g.nodes⟩ := by
  refine ⟨fun n => ⟨n.width_eq_countP_cuts, n.width_eq_card⟩, ?_,
    fun _ _ hperm => Schedule.bounds_eq_of_perm hperm, ?_⟩
  · intro s widest
    rw [Schedule.bounds, s.width_eq_sup_card]
  · intro g hvalidate config
    obtain ⟨s, hs, hperm⟩ :=
      exists_schedule_of_valid (Schedule.validate_eq_ok_iff.1 hvalidate) config
    exact ⟨⟨s, s.allocate⟩, plan_of_schedule hs, Schedule.bounds_eq_of_perm hperm⟩

/-- The widest operation lists one of its inputs twice. Sorting runs `log` before `a` and `b`, and the
bounds are those of the declared order. -/
theorem bounds_of_operations_of_branches :
    let s : Schedule := ⟨[⟨"k", []⟩, ⟨"a", ["k", "k"]⟩, ⟨"b", ["a"]⟩, ⟨"log", ["k"]⟩,
      ⟨"out", ["a", "b", "a", "k"]⟩]⟩
    let g : Graph := ⟨s.nodes, by decide, by decide⟩
    (s.nodes.Perm s.nodes.reverse ∧ s.bounds = Schedule.bounds ⟨s.nodes.reverse⟩) ∧
      s.validate = .ok () ∧ s.bounds = (4, 8) ∧
      (∃ p, g.plan { order := .declared } = .ok p ∧
        (p.allocation.minSlots, p.allocation.maxSlots) = s.bounds) ∧
      (∃ p, g.plan { cycles := .reject } = .ok p ∧
        (p.allocation.minSlots, p.allocation.maxSlots) = s.bounds) ∧
      ∃ p, g.plan { cycles := .tolerate } = .ok p ∧
        (p.allocation.minSlots, p.allocation.maxSlots) = s.bounds := by
  intro s g
  have hperm : s.nodes.Perm s.nodes.reverse := (List.reverse_perm s.nodes).symm
  have hvalidate : s.validate = .ok () := by decide
  obtain ⟨-, -, hbounds, hplans⟩ := bounds_of_operations
  exact ⟨⟨hperm, hbounds s ⟨s.nodes.reverse⟩ hperm⟩, hvalidate, by decide,
    hplans g hvalidate { order := .declared }, hplans g hvalidate { cycles := .reject },
    hplans g hvalidate { cycles := .tolerate }⟩

end Graph

end SlotPlan
