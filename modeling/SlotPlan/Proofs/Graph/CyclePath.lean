import Mathlib.Data.List.Chain
import SlotPlan.Proofs.Graph.Sorted
import SlotPlan.Proofs.Graph.Visits

/-!
# The cycle that sorting reports

When cycles are rejected and sorting fails, the error names a simple closed path of dependencies
(`Walk.Reached.closedPath`): the part of the stack from the input that was met again up to the top.

The walk stops in the first visit whose value depends on a cycle. The values that were visited
before depend on none, since the walk has emitted all that they depend on in a valid order
(`Walk.Reached.not_reachesCycle`); and during a visit the stack only holds what its value depends on.
So the cycle hangs on the first root that depends on any, or, if no root does, on the first operation
that does (`Graph.cycle_of_sort_reject`).
-/

set_option autoImplicit false

namespace SlotPlan

namespace Graph

/-- A simple path of dependencies from `v` through `rest` and back to `v`. -/
structure ClosedPath (g : Graph) (v : Name) (rest : List Name) : Prop where
  /-- No value is on the path twice. -/
  nodup : (v :: rest).Nodup
  /-- Every value of the path is produced. -/
  mem_outputs : ∀ x ∈ v :: rest, x ∈ g.outputs
  /-- Every operation on the path reads the next value, and the last one reads the first value. -/
  isChain : (v :: rest ++ [v]).IsChain g.Reads

/-- The first value of a list that lies on a cycle or depends on one. -/
def FirstReaching (g : Graph) (xs : List Name) (x : Name) : Prop :=
  ∃ before after, xs = before ++ x :: after ∧ g.ReachesCycle x ∧
    ∀ y ∈ before, ¬ g.ReachesCycle y

theorem firstReaching_append_iff {g : Graph} {xs ys : List Name} {x : Name} :
    g.FirstReaching (xs ++ ys) x ↔
      g.FirstReaching xs x ∨ ((∀ y ∈ xs, ¬ g.ReachesCycle y) ∧ g.FirstReaching ys x) := by
  constructor
  · rintro ⟨before, after, hsplit, hx, hbefore⟩
    -- The value stands among `xs`, or all of `xs` comes before it.
    rcases List.append_eq_append_iff.1 hsplit with ⟨middle, rfl, hys⟩ | ⟨middle, rfl, hmiddle⟩
    · right
      refine ⟨fun y hy => hbefore y (List.mem_append_left _ hy), middle, after, hys, hx, ?_⟩
      exact fun y hy => hbefore y (List.mem_append_right _ hy)
    · cases middle with
      | nil =>
          right
          rw [List.append_nil]
          exact ⟨hbefore, [], after, hmiddle.symm, hx, fun y hy => absurd hy List.not_mem_nil⟩
      | cons z middle =>
          cases hmiddle
          exact .inl ⟨before, middle, rfl, hx, hbefore⟩
  · rintro (⟨before, after, rfl, hx, hbefore⟩ | ⟨hxs, before, after, rfl, hx, hbefore⟩)
    · refine ⟨before, after ++ ys, ?_, hx, hbefore⟩
      rw [List.append_assoc, List.cons_append]
    · refine ⟨xs ++ before, after, (List.append_assoc _ _ _).symm, hx, ?_⟩
      intro y hy
      rcases List.mem_append.1 hy with hy | hy
      · exact hxs y hy
      · exact hbefore y hy

end Graph

namespace Walk

variable {g : Graph} {policy : CyclePolicy} {w : Walk}

/-! ## The path on the stack -/

/-- What stands above a value on the stack, with the value below it and on top of it, is the path
that is reported, read from its end. -/
theorem cycleTo_eq_reverse {stack : List Frame} {input : Name} {above below : List Name}
    (hsplit : stack.map (·.node.output) = above ++ input :: below) (hnot : input ∉ above) :
    cycleTo stack input = (input :: above ++ [input]).reverse := by
  have htake : (stack.map (·.node.output)).takeWhile (· ≠ input) = above := by
    rw [hsplit, List.takeWhile_append_of_pos, List.takeWhile_cons_of_neg, List.append_nil]
    · simp
    · intro x hx
      apply decide_eq_true
      rintro rfl
      exact hnot hx
  rw [cycleTo, htake]
  simp

/-- **The cycle that a move finds is a simple closed path of dependencies.** -/
theorem Reached.closedPath (h : Reached g policy w) {n : Node} {input : Name}
    {pending : List Name} {below : List Frame} (htop : w.stack = ⟨n, input :: pending⟩ :: below)
    (hunderway : w.marks.get? input = some .underway) :
    ∃ rest, cycleTo w.stack input = input :: rest ++ [input] ∧ g.ClosedPath input rest := by
  have hmem : input ∈ w.entered := (h.marked.underway_iff input).1 hunderway
  obtain ⟨above, under, hsplit, hnot⟩ := List.eq_append_cons_of_mem hmem
  have hpath : (input :: above ++ [input]).reverse = input :: above.reverse ++ [input] := by
    simp
  -- The values on the stack, with the input on top of them once more, are linked by reads.
  have hchain : (input :: w.entered).IsChain fun x y => g.Reads y x := by
    have hstack : w.entered.IsChain fun x y => g.Reads y x :=
      h.waiting.linked.isChain h.marked.stack_mem
    rw [entered_eq_cons htop] at hstack ⊢
    exact .cons_cons (h.reaches_top_of_underway htop hunderway).2 hstack
  have hsub : input :: w.entered = (input :: above ++ [input]) ++ under := by
    rw [hsplit]
    simp
  refine ⟨above.reverse, (cycleTo_eq_reverse hsplit hnot).trans hpath, ?_, ?_, ?_⟩
  · have hnodup := h.marked.nodup_entered
    rw [hsplit, List.nodup_append] at hnodup
    exact List.nodup_cons.2 ⟨mt List.mem_reverse.1 hnot, List.nodup_reverse.2 hnodup.1⟩
  · intro x hx
    have hentered : x ∈ w.entered := by
      rw [hsplit]
      rcases List.mem_cons.1 hx with rfl | hx
      · exact List.mem_append_right _ List.mem_cons_self
      · exact List.mem_append_left _ (List.mem_reverse.1 hx)
    obtain ⟨f, hf, rfl⟩ := List.mem_map.1 hentered
    exact Graph.mem_outputs_of_mem (h.marked.stack_mem f hf)
  · rw [← hpath, List.isChain_reverse]
    rw [hsub] at hchain
    exact hchain.left_of_append

/-! ## The visit that fails -/

/-- What a walk at rest has emitted without dropping anything depends on no cycle. -/
theorem Reached.not_reachesCycle (h : Reached g .reject w) {x : Name} (hx : x ∈ w.finished) :
    ¬ g.ReachesCycle x := by
  apply Graph.not_reachesCycle_of_valid h.valid
  · intro n hn
    exact h.marked.emitted_mem n (List.mem_reverse.1 hn)
  · rw [outputs_reverse_emitted, List.mem_reverse]
    exact hx

/-- Visits that fail report a cycle that the first of their values to depend on any depends on. -/
theorem foldlM_visit_error_path {xs : List Name} {e : Error} (hxs : ∀ x ∈ xs, x ∈ g.outputs)
    (h : xs.foldlM (visit g .reject) start = .error e) :
    ∃ v rest r, e = .cycleDetected (v :: rest ++ [v]) ∧ g.ClosedPath v rest ∧
      g.FirstReaching xs r ∧ Relation.ReflTransGen g.Reads r v := by
  obtain ⟨before, r, after, w, rfl, hbefore, hvisit⟩ := foldlM_eq_error_iff.1 h
  obtain ⟨hreached, hidle, -, hmet⟩ := foldlM_visit_ok Reached.start rfl hbefore
  obtain ⟨m, w', path, hproducer, hnew, halong, hstep, rfl⟩ := visit_error hvisit
  have hreached' := (hreached.enter_producer hidle hnew hproducer).along halong
  obtain ⟨-, n, v, pending, below, htop, hunderway, rfl⟩ := step_eq_cycle_iff.1 hstep
  obtain ⟨rest, hpath, hclosed⟩ := hreached'.closedPath htop hunderway
  -- The value that was met again is on the stack, so the visited value depends on it.
  have hreach : Relation.ReflTransGen g.Reads r v :=
    (hreached.reaches_of_visit hidle hproducer hnew halong).1 v
      ((hreached'.marked.underway_iff v).1 hunderway)
  have hcycle : g.OnCycle v := by
    obtain ⟨hup, hreads⟩ := hreached'.reaches_top_of_underway htop hunderway
    exact Relation.TransGen.tail' hup hreads
  refine ⟨v, rest, r, by rw [hpath], hclosed, ⟨before, after, rfl, ⟨v, hreach, hcycle⟩, ?_⟩, hreach⟩
  intro y hy
  apply hreached.not_reachesCycle
  exact hreached.mem_finished_of_met hidle (hmet y hy (hxs y (List.mem_append_left _ hy)))

end Walk

namespace Graph

/-- **A reported cycle is real and comes from the right place.** It is a simple closed path of
dependencies. The first root that depends on a cycle depends on it, or, if no root depends on any,
the first operation in the order of declaration that does. -/
theorem cycle_of_sort_reject {g : Graph} {e : Error} (h : g.sort .reject = .error e) :
    ∃ v rest r, e = .cycleDetected (v :: rest ++ [v]) ∧
      e.message = "cycle detected in dependency graph: " ++
        " -> ".intercalate (v :: rest ++ [v]) ∧
      g.ClosedPath v rest ∧ Relation.ReflTransGen g.Reads r v ∧
      (g.FirstReaching g.roots r ∨
        ((∀ x ∈ g.roots, ¬ g.ReachesCycle x) ∧ g.FirstReaching g.outputs r)) := by
  obtain ⟨v, rest, r, rfl, hclosed, hfirst, hreach⟩ :=
    Walk.foldlM_visit_error_path (fun x hx => mem_outputs_of_mem_starts hx) (sort_eq_error_iff.1 h)
  exact ⟨v, rest, r, rfl, rfl, hclosed, hreach, firstReaching_append_iff.1 hfirst⟩

/-- The first root, `log`, depends on no cycle; the second one, `out`, leads to `a`, `b` and `c`. -/
theorem cycle_of_sort_reject_of_second_root :
    let g : Graph := ⟨[⟨"k", []⟩, ⟨"log", ["k"]⟩, ⟨"out", ["k", "a"]⟩, ⟨"a", ["b"]⟩,
      ⟨"b", ["k", "c", "a"]⟩, ⟨"c", ["a"]⟩], by decide, by decide⟩
    let e : Error := .cycleDetected ["a", "b", "c", "a"]
    g.sort .reject = .error e ∧
      e.message = "cycle detected in dependency graph: a -> b -> c -> a" ∧
      g.ClosedPath "a" ["b", "c"] ∧
      ∃ r, Relation.ReflTransGen g.Reads r "a" ∧
        (g.FirstReaching g.roots r ∨
          ((∀ x ∈ g.roots, ¬ g.ReachesCycle x) ∧ g.FirstReaching g.outputs r)) := by
  intro g e
  have hsort : g.sort .reject = .error e := by decide +kernel
  obtain ⟨v, rest, r, hpath, -, hclosed, hreach, hfirst⟩ := cycle_of_sort_reject hsort
  have hlist : "a" :: (["b", "c"] ++ ["a"]) = v :: (rest ++ [v]) := Error.cycleDetected.inj hpath
  obtain ⟨rfl, hrest⟩ := List.cons.inj hlist
  obtain rfl := List.append_cancel_right hrest
  exact ⟨hsort, by decide +kernel, hclosed, r, hreach, hfirst⟩

end Graph

end SlotPlan
