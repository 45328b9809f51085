import SlotPlan.Proofs.Graph.CyclePath
import SlotPlan.Proofs.Graph.Policies

/-!
# Declaring a graph in another order

The walk asks the graph for the operation of a value and for nothing else, so two graphs with the
same operations move it in the same way (`Walk.visit_eq_of_perm`). They differ in where it sets out: from
the roots, in the order in which these are declared, and under the rejecting policy from all other
values after them. If the roots are declared in the same order, the tolerating policy sees no
difference. The rejecting policy finds the same schedule or fails for both graphs, and it reports the
same cycle if it finds one from a root (`Graph.sort_of_redeclared`).
-/

set_option autoImplicit false

namespace SlotPlan

variable {g g' : Graph} {policy : CyclePolicy}

/-! ## The same operations -/

namespace Graph

theorem producer?_eq_of_perm (h : g.nodes.Perm g'.nodes) (x : Name) :
    g'.producer? x = g.producer? x := by
  apply Option.ext
  intro n
  rw [producer?_eq_some_iff, producer?_eq_some_iff, h.mem_iff]

theorem reads_eq_of_perm (h : g.nodes.Perm g'.nodes) : g'.Reads = g.Reads := by
  funext x y
  simp only [Reads, h.mem_iff]

theorem acyclic_iff_of_perm (h : g.nodes.Perm g'.nodes) : g'.Acyclic ↔ g.Acyclic := by
  simp only [Acyclic, OnCycle, reads_eq_of_perm h]

end Graph

namespace Walk

/-- A move only depends on the operations that values are produced by. -/
theorem step_eq_of_perm (h : g.nodes.Perm g'.nodes) (w : Walk) :
    w.step g' policy = w.step g policy := by
  unfold step
  simp only [Graph.producer?_eq_of_perm h]

theorem run_eq_of_perm (h : g.nodes.Perm g'.nodes) (w : Walk) :
    w.run g' policy = w.run g policy := by
  have hstep : ∀ w : Walk, w.step g' policy = w.step g policy := step_eq_of_perm h
  induction w using run.induct g policy with
  | case1 w w' hw ih =>
      rw [run, hstep, hw, run, hw]
      exact ih
  | case2 w hw => rw [run, hstep, hw, run, hw]
  | case3 w path hw => rw [run, hstep, hw, run, hw]

/-- **Visits only depend on the operations of a graph**, not on how these are declared. -/
theorem visit_eq_of_perm (h : g.nodes.Perm g'.nodes) : visit g' policy = visit g policy := by
  funext w x
  simp only [visit, Graph.producer?_eq_of_perm h, run_eq_of_perm h]

end Walk

namespace Graph

/-! ## Sorting -/

theorem sort_tolerate_of_redeclared (h : g.nodes.Perm g'.nodes) (hroots : g.roots = g'.roots)
    {s : Schedule} (hsort : g.sort .tolerate = .ok s) : g'.sort .tolerate = .ok s := by
  obtain ⟨w, hvisits, rfl⟩ := sort_eq_ok_iff.1 hsort
  refine sort_eq_ok_iff.2 ⟨w, ?_, rfl⟩
  rw [Walk.visit_eq_of_perm h, starts, ← hroots]
  exact hvisits

/-- A root that depends on a cycle makes the walk from the roots fail. -/
theorem exists_foldlM_roots_error {r : Name} (hr : r ∈ g.roots) (hcycle : g.ReachesCycle r) :
    ∃ path, g.roots.foldlM (Walk.visit g .reject) Walk.start = .error (.cycleDetected path) := by
  cases hvisits : g.roots.foldlM (Walk.visit g .reject) Walk.start with
  | ok w =>
      obtain ⟨hreached, hidle, -, hmet⟩ := Walk.foldlM_visit_ok Walk.Reached.start rfl hvisits
      have hfinished := hreached.mem_finished_of_met hidle (hmet r hr (mem_outputs_of_mem_roots hr))
      exact absurd hcycle (hreached.not_reachesCycle hfinished)
  | error e =>
      obtain ⟨-, path, -, -, rfl⟩ := Walk.foldlM_visit_error Walk.Reached.start rfl hvisits
      exact ⟨path, rfl⟩

/-- What the walk from the roots reports is reported. -/
theorem sort_reject_of_roots_error {e : Error}
    (h : g.roots.foldlM (Walk.visit g .reject) Walk.start = .error e) :
    g.sort .reject = .error e :=
  sort_reject_eq_error_iff.2 (.inl h)

/-- **The order of declaration matters through the roots only.** Two graphs with the same operations,
and with the roots in the same order, are sorted alike by the tolerating policy. The rejecting policy
gives both the same schedule, or fails for both; and if a root depends on a cycle it reports the same
path for both. -/
theorem sort_of_redeclared (h : g.nodes.Perm g'.nodes) (hroots : g.roots = g'.roots) :
    (∃ s, g.sort .tolerate = .ok s ∧ g'.sort .tolerate = .ok s) ∧
      ((∃ s, g.sort .reject = .ok s ∧ g'.sort .reject = .ok s) ∨
        ∃ e e', g.sort .reject = .error e ∧ g'.sort .reject = .error e') ∧
      ((∃ r ∈ g.roots, g.ReachesCycle r) → ∃ path, g.sort .reject = .error (.cycleDetected path) ∧
        g'.sort .reject = .error (.cycleDetected path)) := by
  refine ⟨?_, ?_, ?_⟩
  · obtain ⟨s, hsort⟩ := exists_sort_tolerate g
    exact ⟨s, hsort, sort_tolerate_of_redeclared h hroots hsort⟩
  · cases hsort : g.sort .reject with
    | ok s =>
        -- The other graph is acyclic as well, and both schedules are that of the tolerating policy.
        obtain ⟨s', hsort'⟩ := exists_sort_reject_of_acyclic
          ((acyclic_iff_of_perm h).2 (acyclic_of_sort_reject hsort))
        have htolerate := sort_tolerate_of_redeclared h hroots (sort_tolerate_of_sort_reject hsort)
        obtain rfl := eq_of_sort htolerate hsort'
        exact .inl ⟨s, rfl, hsort'⟩
    | error e =>
        cases hsort' : g'.sort .reject with
        | ok s' =>
            obtain ⟨s, hs⟩ := exists_sort_reject_of_acyclic
              ((acyclic_iff_of_perm h).1 (acyclic_of_sort_reject hsort'))
            cases hs.symm.trans hsort
        | error e' => exact .inr ⟨e, e', rfl, rfl⟩
  · rintro ⟨r, hr, hcycle⟩
    obtain ⟨path, hvisits⟩ := exists_foldlM_roots_error hr hcycle
    refine ⟨path, sort_reject_of_roots_error hvisits, sort_reject_of_roots_error ?_⟩
    rw [Walk.visit_eq_of_perm h, ← hroots]
    exact hvisits

/-- The same operations are declared in another order. The root `out` depends on the cycle of `a` and
`b`, which the walk enters at `a` both times, although the second graph declares `b` first. -/
theorem sort_of_redeclared_of_cycle :
    let g : Graph := ⟨[⟨"log", ["k"]⟩, ⟨"a", ["b"]⟩, ⟨"out", ["k", "a"]⟩, ⟨"b", ["a"]⟩, ⟨"k", []⟩],
      by decide, by decide⟩
    let g' : Graph := ⟨[⟨"b", ["a"]⟩, ⟨"log", ["k"]⟩, ⟨"k", []⟩, ⟨"a", ["b"]⟩, ⟨"out", ["k", "a"]⟩],
      by decide, by decide⟩
    g.nodes.Perm g'.nodes ∧ g.roots = g'.roots ∧ (∃ r ∈ g.roots, g.ReachesCycle r) ∧
      (∃ s, g.sort .tolerate = .ok s ∧ g'.sort .tolerate = .ok s) ∧
      ∃ path, g.sort .reject = .error (.cycleDetected path) ∧
        g'.sort .reject = .error (.cycleDetected path) := by
  intro g g'
  have hperm : g.nodes.Perm g'.nodes := by decide
  have hroots : g.roots = g'.roots := by decide
  have hcycle : ∃ r ∈ g.roots, g.ReachesCycle r := by
    have hout : g.Reads "out" "a" := ⟨⟨"out", ["k", "a"]⟩, by decide, rfl, by decide⟩
    have ha : g.Reads "a" "b" := ⟨⟨"a", ["b"]⟩, by decide, rfl, by decide⟩
    have hb : g.Reads "b" "a" := ⟨⟨"b", ["a"]⟩, by decide, rfl, by decide⟩
    exact ⟨"out", by decide, "a", .single hout, .head ha (.single hb)⟩
  obtain ⟨htolerate, -, hreject⟩ := sort_of_redeclared hperm hroots
  exact ⟨hperm, hroots, hcycle, htolerate, hreject hcycle⟩

end Graph

end SlotPlan
