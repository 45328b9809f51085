import SlotPlan.Proofs.Graph.Emission
import SlotPlan.Proofs.Graph.Policies

/-!
# Sorting a sorted graph again

The roots of a graph are the results of its sorted schedule: the values that no scheduled operation
reads are the roots, in the order of declaration (`Graph.unread_of_sort`). This holds under both
policies, since everything else in the schedule was entered from a reader that comes later in it
(`Graph.root_or_read_after_of_sort`), also where cycles are cut.

So the operations of a schedule form a graph with the same roots, in which the recursion takes the
same way. Sorting this graph gives the schedule again (`Graph.resort_of_sort`).
-/

set_option autoImplicit false

namespace SlotPlan

/-- The values that no operation of a schedule reads, in the order in which they are produced. -/
def Schedule.unread (s : Schedule) : List Name :=
  s.outputs.filter fun x => !s.nodes.any (x ∈ ·.inputs)

namespace Graph

variable {g : Graph} {policy : CyclePolicy} {s : Schedule}

/-! ## Results of a sorted graph -/

/-- **A scheduled value is a root, or some operation that is scheduled later reads it.** -/
theorem root_or_read_after_of_sort (h : g.sort policy = .ok s) {before after : List Node} {n : Node}
    (hsplit : s.nodes = before ++ n :: after) :
    n.output ∈ g.roots ∨ ∃ m ∈ after, n.output ∈ m.inputs := by
  obtain ⟨hblock, -⟩ := Traversal.emits_from_roots g
  -- The recursion lists the latest operation first.
  have hemitted :
      (Traversal.visitAll g {} g.roots).emitted = after.reverse ++ n :: before.reverse := by
    rw [nodes_eq_of_sort h, List.reverse_eq_iff] at hsplit
    simpa using hsplit
  rcases hblock.readLater _ _ _ hemitted with hroot | ⟨m, hm, hread⟩
  · exact .inl hroot
  · exact .inr ⟨m, List.mem_reverse.1 hm, hread⟩

/-- The roots are scheduled in the order of declaration. -/
theorem filter_roots_of_sort (h : g.sort policy = .ok s) :
    s.outputs.filter (· ∈ g.roots) = g.roots := by
  obtain ⟨-, hroots⟩ := Traversal.emits_from_roots g
  rw [Schedule.outputs, nodes_eq_of_sort h, List.map_reverse, List.filter_reverse, hroots,
    List.reverse_reverse]

theorem mem_outputs_of_root (h : g.sort policy = .ok s) {r : Name} (hr : r ∈ g.roots) :
    r ∈ s.outputs := by
  rw [← filter_roots_of_sort h] at hr
  exact (List.mem_filter.1 hr).1

/-- A scheduled value is a root exactly when no scheduled operation reads it. -/
theorem mem_roots_iff_of_sort (h : g.sort policy = .ok s) {x : Name} (hx : x ∈ s.outputs) :
    x ∈ g.roots ↔ ∀ n ∈ s.nodes, x ∉ n.inputs := by
  constructor
  · intro hroot n hn
    exact (mem_roots_iff.1 hroot).2 n (mem_nodes_of_sort h hn)
  · intro hunread
    obtain ⟨n, hn, rfl⟩ := List.mem_map.1 hx
    obtain ⟨before, after, hsplit⟩ := List.append_of_mem hn
    apply (root_or_read_after_of_sort h hsplit).resolve_right
    rintro ⟨m, hm, hread⟩
    refine hunread m ?_ hread
    rw [hsplit]
    exact List.mem_append_right _ (List.mem_cons_of_mem _ hm)

/-- **What a sorted schedule leaves unread are the roots, in the order of declaration.** -/
theorem unread_of_sort (h : g.sort policy = .ok s) : s.unread = g.roots := by
  rw [← filter_roots_of_sort h, Schedule.unread]
  apply List.filter_congr
  intro x hx
  have hroot := mem_roots_iff_of_sort h hx
  rw [Bool.eq_iff_iff, decide_eq_true_eq, hroot]
  simp

/-! ## The graph of a schedule -/

/-- The operations of a graph are a graph. -/
theorem build_nodes (g : Graph) : build g.nodes = .ok g := by
  have hrepeat : firstRepeat? [] (g.nodes.map Node.output) = none :=
    firstRepeat?_eq_none_iff.2 ⟨g.nodup_outputs, fun _ _ => List.not_mem_nil⟩
  have hdangling : firstDangling? (g.nodes.map Node.output) g.nodes = none :=
    firstDangling?_eq_none_iff.2 g.closed
  unfold build
  split
  · rename_i output h
    rw [hrepeat] at h
    cases h
  · split
    · rename_i node input h
      rw [hdangling] at h
      cases h
    · rfl

/-- The operations of a sorted schedule as a graph, in the order of the schedule. -/
def ofSorted (h : g.sort policy = .ok s) : Graph where
  nodes := s.nodes
  nodup_outputs := nodup_outputs_of_sort h
  closed := fun _ hn _ hx => mem_outputs_of_mem_inputs h hn hx

theorem roots_ofSorted (h : g.sort policy = .ok s) : (ofSorted h).roots = g.roots :=
  unread_of_sort h

/-- On what is scheduled, the graph of a schedule is the graph that was sorted. -/
theorem sameOn_ofSorted (h : g.sort policy = .ok s) : g.SameOn (ofSorted h) (· ∈ s.outputs) := by
  have hsame : ∀ x ∈ s.outputs, ∃ n ∈ s.nodes, (ofSorted h).producer? x = some n ∧
      g.producer? x = some n := by
    intro x hx
    obtain ⟨n, hn, rfl⟩ := List.mem_map.1 hx
    exact ⟨n, hn, producer?_eq_some_iff.2 ⟨hn, rfl⟩,
      producer?_eq_some_iff.2 ⟨mem_nodes_of_sort h hn, rfl⟩⟩
  constructor
  · intro x hx
    obtain ⟨n, -, hnew, hold⟩ := hsame x hx
    rw [hnew, hold]
  · intro x m hx hproducer y hy
    obtain ⟨n, hn, -, hold⟩ := hsame x hx
    obtain rfl : n = m := Option.some.inj (hold.symm.trans hproducer)
    exact mem_outputs_of_mem_inputs h hn hy

/-- The recursion goes through the graph of a schedule as it went through the graph that was
sorted. -/
theorem visitAll_ofSorted (h : g.sort policy = .ok s) :
    Traversal.visitAll (ofSorted h) {} (ofSorted h).roots = Traversal.visitAll g {} g.roots := by
  rw [roots_ofSorted h]
  exact Traversal.visitAll_eq_of_sameOn (sameOn_ofSorted h)
    (fun r hr => mem_outputs_of_root h hr) {}

theorem sort_tolerate_ofSorted (h : g.sort policy = .ok s) :
    (ofSorted h).sort .tolerate = .ok s := by
  obtain ⟨s', hsort⟩ := exists_sort_tolerate (ofSorted h)
  have hnodes : s'.nodes = s.nodes := by
    rw [nodes_eq_of_sort hsort, visitAll_ofSorted h, ← nodes_eq_of_sort h]
  rw [hsort, show s' = s from congrArg Schedule.mk hnodes]

/-- **Sorting a sorted graph again changes nothing.** The operations of a schedule that sorting
gives are a graph, and the same policy sorts this graph into the same schedule, also where
dependencies were dropped or operations left out. -/
theorem resort_of_sort (h : g.sort policy = .ok s) :
    ∃ g', build s.nodes = .ok g' ∧ g'.sort policy = .ok s := by
  refine ⟨ofSorted h, build_nodes (ofSorted h), ?_⟩
  have htolerate := sort_tolerate_ofSorted h
  cases policy with
  | tolerate => exact htolerate
  | reject =>
      -- The schedule is valid and has all operations of its graph, so nothing is rejected.
      exact sort_reject_of_sort_tolerate htolerate (Nat.le_refl _) (valid_of_sort_reject h)

/-- The tolerating policy drops the reading of `a` by `b`, leaves `c` out, although it reads `k`,
and runs `log` before `out`, as they are declared. -/
theorem resort_of_sort_of_cycles :
    let g : Graph := ⟨[⟨"log", ["k"]⟩, ⟨"a", ["b", "k"]⟩, ⟨"out", ["a", "a"]⟩, ⟨"b", ["a"]⟩,
      ⟨"c", ["k", "c"]⟩, ⟨"k", []⟩], by decide, by decide⟩
    let s : Schedule := ⟨[⟨"k", []⟩, ⟨"log", ["k"]⟩, ⟨"b", ["a"]⟩, ⟨"a", ["b", "k"]⟩,
      ⟨"out", ["a", "a"]⟩]⟩
    g.sort .tolerate = .ok s ∧ ∃ g', build s.nodes = .ok g' ∧ g'.sort .tolerate = .ok s := by
  intro g s
  have hsort : g.sort .tolerate = .ok s := by decide +kernel
  exact ⟨hsort, resort_of_sort hsort⟩

end Graph

end SlotPlan
