import SlotPlan.Proofs.Graph.Sorted
import SlotPlan.Proofs.Graph.Visits

/-!
# Sorting with tolerance for cycles

The tolerating policy always gives a schedule (`Graph.exists_sort_tolerate`). It holds exactly the
operations that the roots need (`Graph.mem_nodes_sort_tolerate_iff`). An operation can come before
one of its inputs only where the two depend on each other (`Graph.reaches_of_not_before`), so the
schedule is valid unless a root needs a cycle (`Graph.valid_sort_tolerate_iff`).
-/

set_option autoImplicit false

namespace SlotPlan

namespace Graph

variable {g : Graph} {policy : CyclePolicy} {s : Schedule}

/-- Where cycles are tolerated, no move of the walk fails, and neither does sorting. -/
theorem exists_sort_tolerate (g : Graph) : ∃ s, g.sort .tolerate = .ok s := by
  cases hsort : g.sort .tolerate with
  | ok s => exact ⟨s, rfl⟩
  | error e =>
      obtain ⟨w, path, -, hstep, -⟩ :=
        Walk.foldlM_visit_error Walk.Reached.start rfl (sort_eq_error_iff.1 hsort)
      obtain ⟨hpolicy, -⟩ := Walk.step_eq_cycle_iff.1 hstep
      cases hpolicy

/-! ## What is scheduled -/

/-- With an operation, everything that it reads is scheduled. -/
theorem mem_outputs_of_mem_inputs (h : g.sort policy = .ok s) {n : Node} (hn : n ∈ s.nodes)
    {x : Name} (hx : x ∈ n.inputs) : x ∈ s.outputs := by
  have hmem := mem_nodes_of_sort h hn
  obtain ⟨w, hreached, hidle, rfl, -⟩ := reached_of_sort h
  rw [Walk.outputs_reverse_emitted, List.mem_reverse]
  apply hreached.mem_finished_of_reads hidle (x := n.output)
  · exact (hreached.mem_emitted_iff hmem).1 (List.mem_reverse.1 hn)
  · exact ⟨n, hmem, rfl, hx⟩

/-- **The values that are scheduled are those that the roots need.** -/
theorem mem_outputs_sort_tolerate_iff (h : g.sort .tolerate = .ok s) {x : Name} :
    x ∈ s.outputs ↔ g.Needed x := by
  obtain ⟨w, hvisits, rfl⟩ := sort_eq_ok_iff.1 h
  obtain ⟨hreached, hidle, -, hmet⟩ := Walk.foldlM_visit_ok Walk.Reached.start rfl hvisits
  rw [Walk.outputs_reverse_emitted, List.mem_reverse]
  constructor
  · intro hx
    exact (Walk.foldlM_visit_reaches Walk.Reached.start rfl hvisits x hx).resolve_left
      List.not_mem_nil
  · rintro ⟨r, hr, hreach⟩
    have hroot := hreached.mem_finished_of_met hidle (hmet r hr (mem_outputs_of_mem_roots hr))
    exact hreached.mem_finished_of_reaches hidle hroot hreach

theorem mem_nodes_sort_tolerate_iff (h : g.sort .tolerate = .ok s) {n : Node} :
    n ∈ s.nodes ↔ n ∈ g.nodes ∧ g.Needed n.output := by
  rw [← mem_outputs_sort_tolerate_iff h]
  constructor
  · intro hn
    exact ⟨mem_nodes_of_sort h hn, List.mem_map_of_mem hn⟩
  · rintro ⟨hn, hout⟩
    -- The scheduled operation with this output is the one of the graph.
    obtain ⟨m, hm, hmn⟩ := List.mem_map.1 hout
    obtain rfl := eq_of_output_eq (mem_nodes_of_sort h hm) hn hmn
    exact hm

/-! ## Where the order fails -/

/-- **Only dependencies that lie on a cycle are given up**: an input that does not come before its
reader depends on it. -/
theorem reaches_of_not_before (h : g.sort policy = .ok s) {before after : List Node} {n : Node}
    (hsplit : s.nodes = before ++ n :: after) {x : Name} (hx : x ∈ n.inputs)
    (hbefore : x ∉ before.map Node.output) : Relation.ReflTransGen g.Reads x n.output := by
  obtain ⟨w, hreached, -, rfl, -⟩ := reached_of_sort h
  have hdropped := (hreached.waiting.before_or_dropped hsplit hx).resolve_left hbefore
  exact (hreached.of_dropped hdropped).2

/-- The schedule is valid if and only if no cycle is needed. -/
theorem valid_sort_tolerate_iff (h : g.sort .tolerate = .ok s) :
    s.Valid ↔ ∀ r ∈ g.roots, ¬ g.ReachesCycle r := by
  constructor
  · intro hvalid r hr
    apply not_reachesCycle_of_valid hvalid fun n hn => mem_nodes_of_sort h hn
    exact (mem_outputs_sort_tolerate_iff h).2 ⟨r, hr, Relation.ReflTransGen.refl⟩
  · intro hfree before n after hsplit
    have hn : n ∈ s.nodes := by
      rw [hsplit]
      simp
    refine ⟨?_, Schedule.not_mem_before_of_nodup (nodup_outputs_of_sort h) hsplit⟩
    intro x hx
    by_contra hbefore
    -- The operation is needed by a root, and it would lie on a cycle.
    obtain ⟨hmem, r, hr, hreach⟩ := (mem_nodes_sort_tolerate_iff h).1 hn
    have hback := reaches_of_not_before h hsplit hx hbefore
    exact hfree r hr ⟨n.output, hreach, Relation.TransGen.head' ⟨n, hmem, rfl, hx⟩ hback⟩

/-- **Tolerating cycles costs no more than it has to.** Sorting gives the operations that the roots
need, each once, and with an operation everything that it reads. An input only fails to come before
its reader if it depends on it, and the schedule is valid if no root needs a cycle. -/
theorem sort_tolerate_drops_only_cycles (g : Graph) :
    ∃ s, g.sort .tolerate = .ok s ∧
      (s.outputs.Nodup ∧ ∀ n, n ∈ s.nodes ↔ n ∈ g.nodes ∧ g.Needed n.output) ∧
      (∀ n ∈ s.nodes, ∀ x ∈ n.inputs, x ∈ s.outputs) ∧
      (∀ before n after, s.nodes = before ++ n :: after → ∀ x ∈ n.inputs,
        x ∉ before.map Node.output → Relation.ReflTransGen g.Reads x n.output) ∧
      (s.validate = .ok () ↔ ∀ r ∈ g.roots, ¬ g.ReachesCycle r) := by
  obtain ⟨s, hsort⟩ := exists_sort_tolerate g
  refine ⟨s, hsort, ⟨nodup_outputs_of_sort hsort, ?_⟩, ?_, ?_, ?_⟩
  · intro n
    exact mem_nodes_sort_tolerate_iff hsort
  · intro n hn x hx
    exact mem_outputs_of_mem_inputs hsort hn hx
  · intro before n after hsplit x hx hbefore
    exact reaches_of_not_before hsort hsplit hx hbefore
  · rw [Schedule.validate_eq_ok_iff]
    exact valid_sort_tolerate_iff hsort

/-- The cycle of `a` and `b` is cut where the walk meets `a` again, and `c` is needed by no root. -/
example :
    let g : Graph := ⟨[⟨"out", ["a"]⟩, ⟨"a", ["b"]⟩, ⟨"b", ["a"]⟩, ⟨"c", ["c"]⟩], by decide, by decide⟩
    g.sort .tolerate = .ok ⟨[⟨"b", ["a"]⟩, ⟨"a", ["b"]⟩, ⟨"out", ["a"]⟩]⟩ := by
  decide +kernel

end Graph

end SlotPlan
