import SlotPlan.Proofs.Graph.Refinement
import SlotPlan.Proofs.Graph.Tolerating

/-!
# Where the two policies agree

Both policies list a graph in the order in which the recursion emits it from the roots. So what the
rejecting policy sorts, the tolerating one sorts in the same way
(`Graph.sort_tolerate_of_sort_reject`). In the other direction, a schedule of the tolerating policy
that is valid and lacks no operation shows that there is no cycle to be rejected
(`Graph.sort_reject_of_sort_tolerate`). So the schedule of the tolerating policy tells what the
rejecting one does (`Graph.sort_policies_agree`).
-/

set_option autoImplicit false

namespace SlotPlan

namespace Graph

variable {g : Graph} {policy : CyclePolicy} {s : Schedule}

/-- Sorting has one way to fail. -/
theorem exists_path_of_sort_error {e : Error} (h : g.sort policy = .error e) :
    ∃ path, e = .cycleDetected path := by
  obtain ⟨-, path, -, -, he⟩ :=
    Walk.foldlM_visit_error Walk.Reached.start rfl (sort_eq_error_iff.1 h)
  exact ⟨path, he⟩

/-- Whatever the policies, a graph has one sorted schedule. -/
theorem eq_of_sort {policy' : CyclePolicy} {s' : Schedule} (h : g.sort policy = .ok s)
    (h' : g.sort policy' = .ok s') : s = s' :=
  congrArg Schedule.mk ((nodes_eq_of_sort h).trans (nodes_eq_of_sort h').symm)

/-- What the rejecting policy sorts, the tolerating policy sorts in the same way. -/
theorem sort_tolerate_of_sort_reject (h : g.sort .reject = .ok s) : g.sort .tolerate = .ok s := by
  obtain ⟨s', hsort⟩ := exists_sort_tolerate g
  rw [hsort, eq_of_sort hsort h]

/-- A sorted schedule that is as long as the graph holds all its operations. -/
theorem perm_of_size_le (h : g.sort policy = .ok s) (hsize : g.size ≤ s.size) :
    s.nodes.Perm g.nodes :=
  (subperm_of_sort h).perm_of_length_le hsize

/-- A valid schedule of all operations that the tolerating policy gives is the one of the rejecting
policy. -/
theorem sort_reject_of_sort_tolerate (h : g.sort .tolerate = .ok s) (hsize : g.size ≤ s.size)
    (hvalid : s.Valid) : g.sort .reject = .ok s := by
  have hacyclic : g.Acyclic := acyclic_of_valid hvalid (perm_of_size_le h hsize)
  obtain ⟨s', hsort⟩ := exists_sort_reject_of_acyclic hacyclic
  rw [hsort, eq_of_sort hsort h]

/-- **The policies agree wherever both make sense.** A schedule that the rejecting policy gives is
also given by the tolerating one. A schedule that the tolerating policy gives is also given by the
rejecting one if it has as many operations as the graph and is valid; if it is shorter or not valid,
the rejecting policy finds a cycle. -/
theorem sort_policies_agree (g : Graph) :
    (∀ s, g.sort .reject = .ok s → g.sort .tolerate = .ok s) ∧
      (∀ s, g.sort .tolerate = .ok s → s.size = g.size → s.validate = .ok () →
        g.sort .reject = .ok s) ∧
      ∀ s, g.sort .tolerate = .ok s → s.size < g.size ∨ s.validate ≠ .ok () →
        ∃ path, g.sort .reject = .error (.cycleDetected path) := by
  refine ⟨fun s hsort => sort_tolerate_of_sort_reject hsort, ?_, ?_⟩
  · intro s hsort hsize hvalidate
    exact sort_reject_of_sort_tolerate hsort (Nat.le_of_eq hsize.symm)
      (Schedule.validate_eq_ok_iff.1 hvalidate)
  · intro s hsort hfault
    cases hreject : g.sort .reject with
    | error e =>
        obtain ⟨path, rfl⟩ := exists_path_of_sort_error hreject
        exact ⟨path, rfl⟩
    | ok s' =>
        -- Then the schedule is that of the rejecting policy, and has neither fault.
        obtain rfl : s' = s := eq_of_sort hreject hsort
        have hsize : s'.size = g.size := (perm_of_sort_reject hreject).length_eq
        have hvalidate := Schedule.validate_eq_ok_iff.2 (valid_of_sort_reject hreject)
        rcases hfault with hshort | hinvalid
        · exact absurd hsize (Nat.ne_of_lt hshort)
        · exact absurd hvalidate hinvalid

/-- Three graphs: in the first one the operations share an input, in the second one `a` and `b` form
a cycle that the root needs, in the third one the cycle of `c` is needed by nothing. -/
theorem sort_policies_agree_of_cycles :
    let shared : Graph := ⟨[⟨"out", ["a", "b"]⟩, ⟨"a", ["k"]⟩, ⟨"b", ["k", "a"]⟩, ⟨"k", []⟩],
      by decide, by decide⟩
    let needed : Graph := ⟨[⟨"out", ["a"]⟩, ⟨"a", ["b"]⟩, ⟨"b", ["a"]⟩], by decide, by decide⟩
    let hidden : Graph := ⟨[⟨"out", ["k"]⟩, ⟨"k", []⟩, ⟨"c", ["k", "c"]⟩], by decide, by decide⟩
    let s : Schedule := ⟨[⟨"k", []⟩, ⟨"a", ["k"]⟩, ⟨"b", ["k", "a"]⟩, ⟨"out", ["a", "b"]⟩]⟩
    (shared.sort .reject = .ok s ∧ shared.sort .tolerate = .ok s ∧ s.validate = .ok ()) ∧
      (∃ path, needed.sort .reject = .error (.cycleDetected path)) ∧
      ∃ path, hidden.sort .reject = .error (.cycleDetected path) := by
  intro shared needed hidden s
  have hshared : shared.sort .tolerate = .ok s := by decide +kernel
  have hneeded : needed.sort .tolerate = .ok ⟨[⟨"b", ["a"]⟩, ⟨"a", ["b"]⟩, ⟨"out", ["a"]⟩]⟩ := by
    decide +kernel
  have hhidden : hidden.sort .tolerate = .ok ⟨[⟨"k", []⟩, ⟨"out", ["k"]⟩]⟩ := by decide +kernel
  have hvalidate : s.validate = .ok () := by decide
  obtain ⟨htolerate, hreject, -⟩ := sort_policies_agree shared
  obtain ⟨-, -, hinvalid⟩ := sort_policies_agree needed
  obtain ⟨-, -, hshort⟩ := sort_policies_agree hidden
  have hsort : shared.sort .reject = .ok s := hreject s hshared rfl hvalidate
  refine ⟨⟨hsort, htolerate s hsort, hvalidate⟩, ?_, ?_⟩
  · exact hinvalid _ hneeded (.inr (by decide))
  · exact hshort _ hhidden (.inl (by decide))

end Graph

end SlotPlan
