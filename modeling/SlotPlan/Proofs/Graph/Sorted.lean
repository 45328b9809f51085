import Mathlib.Data.List.Perm.Subperm
import SlotPlan.Proofs.Graph.WalkInvariant

/-!
# What a sorted graph looks like

A walk that has come to rest has emitted everything that it has met
(`Walk.Reached.mem_finished_of_met`), and with an operation everything that it depends on
(`Walk.Reached.mem_finished_of_reads`). So whatever the policy, a graph that has been sorted gives a
schedule of its own operations, none of them twice (`Graph.mem_nodes_of_sort`,
`Graph.nodup_outputs_of_sort`). Under the rejecting policy the operations that were emitted can run in
that order (`Walk.Reached.valid`).
-/

set_option autoImplicit false

namespace SlotPlan

variable {g : Graph} {policy : CyclePolicy}

namespace Walk

variable {w : Walk}

/-! ## A walk at rest -/

theorem Reached.mem_finished_of_met (h : Reached g policy w) (hidle : w.stack = []) {x : Name}
    (hmet : w.Met x) : x ∈ w.finished := by
  cases hmark : w.marks.get? x with
  | none => exact absurd hmark hmet
  | some mark =>
      cases mark with
      | underway =>
          have hentered := (h.marked.underway_iff x).1 hmark
          rw [entered, hidle] at hentered
          cases hentered
      | done => exact (h.marked.done_iff x).1 hmark

theorem Reached.met_of_mem_finished (h : Reached g policy w) {x : Name} (hx : x ∈ w.finished) :
    w.Met x :=
  met_of_mark ((h.marked.done_iff x).2 hx)

theorem Reached.mem_outputs_of_mem_finished (h : Reached g policy w) {x : Name}
    (hx : x ∈ w.finished) : x ∈ g.outputs := by
  obtain ⟨n, hn, rfl⟩ := List.mem_map.1 hx
  exact Graph.mem_outputs_of_mem (h.marked.emitted_mem n hn)

/-- An operation of the graph has been emitted when its value has. -/
theorem Reached.mem_emitted_iff (h : Reached g policy w) {n : Node} (hn : n ∈ g.nodes) :
    n ∈ w.emitted ↔ n.output ∈ w.finished := by
  constructor
  · exact List.mem_map_of_mem
  · intro hout
    obtain ⟨m, hm, hmn⟩ := List.mem_map.1 hout
    exact Graph.eq_of_output_eq (h.marked.emitted_mem m hm) hn hmn ▸ hm

/-- In the order of emission, the schedule lists what was finished. -/
theorem outputs_reverse_emitted (w : Walk) :
    Schedule.outputs ⟨w.emitted.reverse⟩ = w.finished.reverse :=
  List.map_reverse

/-- With an operation, everything that it reads has been emitted. -/
theorem Reached.mem_finished_of_reads (h : Reached g policy w) (hidle : w.stack = []) {x y : Name}
    (hx : x ∈ w.finished) (hreads : g.Reads x y) : y ∈ w.finished := by
  obtain ⟨n, hn, rfl, hy⟩ := hreads
  obtain ⟨before, after, hsplit⟩ := List.append_of_mem ((h.mem_emitted_iff hn).2 hx)
  have hsuffix : n :: after <:+ w.emitted := ⟨before, hsplit.symm⟩
  rcases h.waiting.emitted n after hsuffix y hy with hmem | hdropped
  · rw [finished, hsplit, List.map_append, List.map_cons]
    exact List.mem_append_right _ (List.mem_cons_of_mem _ hmem)
  · -- An input that was dropped has been met, and the walk is at rest.
    exact h.mem_finished_of_met hidle (h.of_dropped hdropped).1

theorem Reached.mem_finished_of_reaches (h : Reached g policy w) (hidle : w.stack = [])
    {x y : Name} (hx : x ∈ w.finished) (hreach : Relation.ReflTransGen g.Reads x y) :
    y ∈ w.finished := by
  induction hreach with
  | refl => exact hx
  | tail _ hreads ih => exact h.mem_finished_of_reads hidle ih hreads

/-! ## Walks that drop nothing -/

/-- The operations can run in the order in which they were emitted. -/
theorem Reached.valid (h : Reached g .reject w) : Schedule.Valid ⟨w.emitted.reverse⟩ := by
  intro before n after hsplit
  constructor
  · intro x hx
    apply (h.waiting.before_or_dropped hsplit hx).resolve_right
    rw [h.dropped_eq_nil]
    exact List.not_mem_nil
  · apply Schedule.not_mem_before_of_nodup _ hsplit
    rw [outputs_reverse_emitted, List.nodup_reverse]
    exact h.marked.nodup_finished

end Walk

namespace Graph

variable {s : Schedule}

/-! ## Schedules that sorting gives -/

/-- Sorting ends with a walk at rest that has emitted every value it set out from. -/
theorem reached_of_sort (h : g.sort policy = .ok s) :
    ∃ w, Walk.Reached g policy w ∧ w.stack = [] ∧ s = ⟨w.emitted.reverse⟩ ∧
      ∀ x ∈ g.starts policy, x ∈ g.outputs → x ∈ w.finished := by
  obtain ⟨w, hvisits, rfl⟩ := sort_eq_ok_iff.1 h
  obtain ⟨hreached, hidle, -, hmet⟩ := Walk.foldlM_visit_ok Walk.Reached.start rfl hvisits
  exact ⟨w, hreached, hidle, rfl, fun x hx hout =>
    hreached.mem_finished_of_met hidle (hmet x hx hout)⟩

/-- Every operation of a sorted graph comes from the graph, with its inputs as they were. -/
theorem mem_nodes_of_sort (h : g.sort policy = .ok s) {n : Node} (hn : n ∈ s.nodes) :
    n ∈ g.nodes := by
  obtain ⟨w, hreached, -, rfl, -⟩ := reached_of_sort h
  exact hreached.marked.emitted_mem n (List.mem_reverse.1 hn)

/-- Sorting schedules no operation twice, also where cycles are tolerated. -/
theorem nodup_outputs_of_sort (h : g.sort policy = .ok s) : s.outputs.Nodup := by
  obtain ⟨w, hreached, -, rfl, -⟩ := reached_of_sort h
  rw [Walk.outputs_reverse_emitted, List.nodup_reverse]
  exact hreached.marked.nodup_finished

/-- A sorted graph gives a part of its operations, in some order. -/
theorem subperm_of_sort (h : g.sort policy = .ok s) : s.nodes.Subperm g.nodes :=
  List.subperm_of_subset (nodup_outputs_of_sort h).of_map fun _ hn => mem_nodes_of_sort h hn

end Graph

end SlotPlan
