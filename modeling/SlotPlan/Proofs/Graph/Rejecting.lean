import Mathlib.Data.List.Perm.Subperm
import SlotPlan.Proofs.Graph.Sorted

/-!
# Sorting without tolerance for cycles

The rejecting policy sorts exactly the acyclic graphs, whether or not a root depends on the cycle,
and the schedule is then a valid order of all operations (`Graph.sort_reject_iff_acyclic`).

The walk sets out from the roots first. If it leaves operations behind, these hang on a cycle, and
the visits that follow are bound to meet it (`Graph.foldlM_outputs_of_unreached`). If it leaves
nothing behind, these visits change nothing (`Graph.foldlM_outputs_of_reached`). So they need not be
made in that case (`Graph.sorting_eq_sortingInRounds`).
-/

set_option autoImplicit false

namespace SlotPlan

namespace Graph

variable {g : Graph} {s : Schedule}

/-! ## Two rounds of visits -/

/-- Sorting succeeds if the visits to the roots do, and then the visits to all values. -/
theorem sort_reject_eq_ok_iff :
    g.sort .reject = .ok s ↔
      ∃ w w', g.roots.foldlM (Walk.visit g .reject) Walk.start = .ok w ∧
        g.outputs.foldlM (Walk.visit g .reject) w = .ok w' ∧ s = ⟨w'.emitted.reverse⟩ := by
  rw [sort_eq_ok_iff, starts, List.foldlM_append]
  constructor
  · rintro ⟨w', hvisits, rfl⟩
    obtain ⟨w, hroots, houtputs⟩ := bind_eq_ok_iff.1 hvisits
    exact ⟨w, w', hroots, houtputs, rfl⟩
  · rintro ⟨w, w', hroots, houtputs, rfl⟩
    exact ⟨w', bind_eq_ok_iff.2 ⟨w, hroots, houtputs⟩, rfl⟩

/-- Sorting fails at a root, or after the roots. -/
theorem sort_reject_eq_error_iff {e : Error} :
    g.sort .reject = .error e ↔
      g.roots.foldlM (Walk.visit g .reject) Walk.start = .error e ∨
        ∃ w, g.roots.foldlM (Walk.visit g .reject) Walk.start = .ok w ∧
          g.outputs.foldlM (Walk.visit g .reject) w = .error e := by
  rw [sort_eq_error_iff, starts, List.foldlM_append, bind_eq_error_iff]

/-! ## Success -/

/-- The schedule holds every operation of the graph once. -/
theorem perm_of_sort_reject (h : g.sort .reject = .ok s) : s.nodes.Perm g.nodes := by
  obtain ⟨w, hreached, -, rfl, hstarts⟩ := reached_of_sort h
  -- Both lists are without repeats, so it is enough that they have the same operations.
  have hnodup : w.emitted.Nodup := hreached.marked.nodup_finished.of_map
  apply (List.reverse_perm w.emitted).trans
  rw [List.perm_ext_iff_of_nodup hnodup g.nodup_outputs.of_map]
  intro n
  constructor
  · exact hreached.marked.emitted_mem n
  · intro hn
    have hout := mem_outputs_of_mem hn
    exact (hreached.mem_emitted_iff hn).2 (hstarts _ (List.mem_append_right _ hout) hout)

theorem valid_of_sort_reject (h : g.sort .reject = .ok s) : s.Valid := by
  obtain ⟨w, hreached, -, rfl, -⟩ := reached_of_sort h
  exact hreached.valid

theorem acyclic_of_sort_reject (h : g.sort .reject = .ok s) : g.Acyclic :=
  acyclic_of_valid (valid_of_sort_reject h) (perm_of_sort_reject h)

/-- Sorting an acyclic graph finds no cycle, so it does not fail. -/
theorem exists_sort_reject_of_acyclic (h : g.Acyclic) : ∃ s, g.sort .reject = .ok s := by
  cases hsort : g.sort .reject with
  | ok s => exact ⟨s, rfl⟩
  | error e =>
      obtain ⟨w, path, hreached, hstep, -⟩ :=
        Walk.foldlM_visit_error Walk.Reached.start rfl (sort_eq_error_iff.1 hsort)
      obtain ⟨x, hx⟩ := Walk.exists_onCycle_of_step hreached hstep
      exact absurd hx (h x)

/-! ## The visits after the roots -/

/-- What the roots of an acyclic graph depend on is the whole graph. -/
theorem mem_finished_of_roots {w : Walk} (hsort : g.sort .reject = .ok s)
    (hroots : g.roots.foldlM (Walk.visit g .reject) Walk.start = .ok w) {x : Name}
    (hx : x ∈ g.outputs) : x ∈ w.finished := by
  obtain ⟨hreached, hidle, -, hmet⟩ := Walk.foldlM_visit_ok Walk.Reached.start rfl hroots
  obtain ⟨r, hr, hreach⟩ :=
    exists_root_of_valid (valid_of_sort_reject hsort) (perm_of_sort_reject hsort) hx
  have hroot : r ∈ w.finished :=
    hreached.mem_finished_of_met hidle (hmet r hr (mem_outputs_of_mem_roots hr))
  exact hreached.mem_finished_of_reaches hidle hroot hreach

/-- **What the roots do not depend on hangs on a cycle**: if the walk from the roots leaves
operations behind, the visits of all values end at a cycle. -/
theorem foldlM_outputs_of_unreached {w : Walk}
    (hroots : g.roots.foldlM (Walk.visit g .reject) Walk.start = .ok w)
    (hunreached : 0 < g.size - w.emitted.length) :
    ∃ path, g.outputs.foldlM (Walk.visit g .reject) w = .error (.cycleDetected path) := by
  obtain ⟨hreached, hidle, -, -⟩ := Walk.foldlM_visit_ok Walk.Reached.start rfl hroots
  cases houtputs : g.outputs.foldlM (Walk.visit g .reject) w with
  | error e =>
      obtain ⟨-, path, -, -, rfl⟩ := Walk.foldlM_visit_error hreached hidle houtputs
      exact ⟨path, rfl⟩
  | ok w' =>
      -- Then sorting succeeds, so the roots depend on everything and nothing was left behind.
      have hsort : g.sort .reject = .ok ⟨w'.emitted.reverse⟩ :=
        sort_reject_eq_ok_iff.2 ⟨w, w', hroots, houtputs, rfl⟩
      have hsubset : g.outputs ⊆ w.finished := fun x hx => mem_finished_of_roots hsort hroots hx
      have hlen := (List.subperm_of_subset g.nodup_outputs hsubset).length_le
      rw [Walk.finished, List.length_map, List.length_map] at hlen
      rw [size] at hunreached
      omega

theorem foldlM_visit_of_met {policy : CyclePolicy} {w : Walk} :
    ∀ {xs : List Name}, (∀ x ∈ xs, w.Met x) → xs.foldlM (Walk.visit g policy) w = .ok w
  | [], _ => rfl
  | x :: xs, h => by
      rw [List.foldlM_cons, bind_eq_ok_iff]
      exact ⟨w, Walk.visit_of_met (h x List.mem_cons_self),
        foldlM_visit_of_met fun y hy => h y (List.mem_cons_of_mem _ hy)⟩

/-- Where every value is emitted, the visits of all values change nothing. -/
theorem foldlM_outputs_of_subset {policy : CyclePolicy} {w : Walk}
    (hreached : Walk.Reached g policy w) (hall : g.outputs ⊆ w.finished) :
    g.outputs.foldlM (Walk.visit g policy) w = .ok w := by
  apply foldlM_visit_of_met
  intro x hx
  exact hreached.met_of_mem_finished (hall hx)

/-- If sorting succeeds, the walk from the roots has done everything. -/
theorem foldlM_roots_of_sort_reject (hsort : g.sort .reject = .ok s) :
    ∃ w, g.roots.foldlM (Walk.visit g .reject) Walk.start = .ok w ∧
      g.outputs.foldlM (Walk.visit g .reject) w = .ok w ∧ s = ⟨w.emitted.reverse⟩ := by
  obtain ⟨w, w', hroots, houtputs, rfl⟩ := sort_reject_eq_ok_iff.1 hsort
  obtain ⟨hreached, -, -, -⟩ := Walk.foldlM_visit_ok Walk.Reached.start rfl hroots
  -- The visits after the roots find every value emitted, and do nothing.
  have hsame := foldlM_outputs_of_subset hreached fun x hx => mem_finished_of_roots hsort hroots hx
  obtain rfl : w = w' := Except.ok.inj (hsame.symm.trans houtputs)
  exact ⟨w, hroots, houtputs, rfl⟩

/-- If the walk from the roots leaves nothing behind, the visits of all values change nothing. -/
theorem foldlM_outputs_of_reached {w : Walk}
    (hroots : g.roots.foldlM (Walk.visit g .reject) Walk.start = .ok w)
    (hall : g.size - w.emitted.length = 0) :
    g.outputs.foldlM (Walk.visit g .reject) w = .ok w := by
  obtain ⟨hreached, -, -, -⟩ := Walk.foldlM_visit_ok Walk.Reached.start rfl hroots
  -- As many values were emitted as there are, so each one was, and is not visited again.
  have hperm : w.finished.Perm g.outputs := by
    refine (List.subperm_of_subset hreached.marked.nodup_finished fun x hx =>
      hreached.mem_outputs_of_mem_finished hx).perm_of_length_le ?_
    rw [outputs, Walk.finished, List.length_map, List.length_map]
    rw [size] at hall
    omega
  exact foldlM_outputs_of_subset hreached hperm.symm.subset

/-- Sorting in two rounds. The roots are visited first. If this leaves operations behind, the
rejecting policy goes on to visit every value; the tolerating policy leaves it at that. -/
def sortingInRounds (g : Graph) (policy : CyclePolicy) : Except Error Sorting := do
  let reached ← g.roots.foldlM (Walk.visit g policy) Walk.start
  let unreached := g.size - reached.emitted.length
  let walk ←
    if 0 < unreached then
      match policy with
      | .reject => g.outputs.foldlM (Walk.visit g policy) reached
      | .tolerate => pure reached
    else pure reached
  return { schedule := ⟨walk.emitted.reverse⟩, dropped := walk.dropped.reverse, unreached }

/-- **A second round is needed only where the first left operations behind.** To make it in any case,
as `sorting` does, gives the same schedule, the same dropped dependencies and number of operations
left out, and the same cycle. -/
theorem sorting_eq_sortingInRounds (g : Graph) (policy : CyclePolicy) :
    g.sorting policy = g.sortingInRounds policy := by
  cases policy with
  | tolerate =>
      rw [sorting, sortingInRounds, starts]
      simp only [ite_self]
      rfl
  | reject =>
      rw [sorting, sortingInRounds, starts, List.foldlM_append]
      cases hroots : g.roots.foldlM (Walk.visit g .reject) Walk.start with
      | error e => rfl
      | ok w =>
          simp only [ok_bind]
          by_cases hunreached : 0 < g.size - w.emitted.length
          · -- Both go on to all values, and this ends at a cycle.
            obtain ⟨path, houtputs⟩ := foldlM_outputs_of_unreached hroots hunreached
            rw [if_pos hunreached, houtputs]
            rfl
          · -- Only one of them goes on to all values, and meets nothing new.
            have houtputs := foldlM_outputs_of_reached hroots (Nat.eq_zero_of_not_pos hunreached)
            rw [if_neg hunreached, houtputs]
            rfl

/-! ## Soundness and completeness -/

/-- **The rejecting policy sorts exactly the acyclic graphs.** These are the graphs whose operations
have some valid order. A schedule that sorting gives is such an order of all operations. If the walk
from the roots leaves operations behind, the visits that follow end at a cycle. -/
theorem sort_reject_iff_acyclic (g : Graph) :
    ((∃ s, g.sort .reject = .ok s) ↔ g.Acyclic) ∧
      (g.Acyclic ↔ ∃ nodes s, nodes.Perm g.nodes ∧ Schedule.validated nodes = .ok s) ∧
      (∀ s, g.sort .reject = .ok s → s.nodes.Perm g.nodes ∧ s.validate = .ok ()) ∧
      ∀ w, g.roots.foldlM (Walk.visit g .reject) Walk.start = .ok w →
        0 < g.size - w.emitted.length →
          ∃ path, g.outputs.foldlM (Walk.visit g .reject) w = .error (.cycleDetected path) := by
  refine ⟨⟨?_, exists_sort_reject_of_acyclic⟩, ⟨?_, ?_⟩, ?_, ?_⟩
  · rintro ⟨s, hsort⟩
    exact acyclic_of_sort_reject hsort
  · intro hacyclic
    obtain ⟨s, hsort⟩ := exists_sort_reject_of_acyclic hacyclic
    have hvalidate := Schedule.validate_eq_ok_iff.2 (valid_of_sort_reject hsort)
    exact ⟨s.nodes, s, perm_of_sort_reject hsort,
      Schedule.validated_eq_ok_iff.2 ⟨rfl, hvalidate⟩⟩
  · rintro ⟨nodes, s, hperm, hvalidated⟩
    obtain ⟨rfl, hvalidate⟩ := Schedule.validated_eq_ok_iff.1 hvalidated
    exact acyclic_of_valid (Schedule.validate_eq_ok_iff.1 hvalidate) hperm
  · intro s hsort
    exact ⟨perm_of_sort_reject hsort, Schedule.validate_eq_ok_iff.2 (valid_of_sort_reject hsort)⟩
  · intro w hroots hunreached
    exact foldlM_outputs_of_unreached hroots hunreached

end Graph

end SlotPlan
