import SlotPlan.Proofs.Graph.Building
import SlotPlan.Proofs.Graph.Dropping
import SlotPlan.Proofs.Graph.Simulation

/-!
# Building and sorting without repeated inputs

An operation may list a value among its inputs more than once. Listing it once, at its first mention
(`Node.dedup`), does not change what is read, and what is missing is found at the same place
(`Graph.build_dedup`).

The walk looks at a repeated input again. It has met the value before, and has emitted it or dropped
the dependency, so it passes over it or drops it once more. The walk over the operations without
repeats stands still meanwhile, and otherwise moves along with it (`Walk.simulates_dedups`). So both
emit the same operations in the same order, and report the same cycle (`Graph.sort_dedup`).
-/

set_option autoImplicit false

namespace SlotPlan

namespace Node

/-- Lists every input once, in the order of the first mentions. -/
def dedup (n : Node) : Node :=
  { n with inputs := n.reads }

theorem map_output_dedup (nodes : List Node) :
    (nodes.map dedup).map output = nodes.map output := by
  rw [List.map_map]
  rfl

@[simp]
theorem mem_inputs_dedup {n : Node} {x : Name} : x ∈ n.dedup.inputs ↔ x ∈ n.inputs :=
  mem_reads

end Node

/-! ## Building -/

theorem firstDangling?_dedup (known : List Name) (nodes : List Node) :
    firstDangling? known (nodes.map Node.dedup) = firstDangling? known nodes := by
  have hnode : (fun n : Node => (n.inputs.find? (· ∉ known)).map fun x => (n.output, x)) ∘
      Node.dedup = fun n : Node => (n.inputs.find? (· ∉ known)).map fun x => (n.output, x) := by
    funext n
    simp only [Function.comp_apply, Node.dedup, Node.reads, find?_eraseDups]
  rw [firstDangling?, List.findSome?_map, hnode, firstDangling?]

namespace Graph

/-- Lists every input of every operation once. What is read does not change. -/
def dedup (g : Graph) : Graph where
  nodes := g.nodes.map Node.dedup
  nodup_outputs := by
    rw [Node.map_output_dedup]
    exact g.nodup_outputs
  closed := by
    intro n hn x hx
    obtain ⟨m, hm, rfl⟩ := List.mem_map.1 hn
    rw [Node.map_output_dedup]
    exact g.closed m hm x (Node.mem_inputs_dedup.1 hx)

/-- **Building the operations without repeated inputs gives the graph without them**, or the same
fault. -/
theorem build_dedup (nodes : List Node) :
    build (nodes.map Node.dedup) = (build nodes).map dedup := by
  have houtputs := Node.map_output_dedup nodes
  have hdangling := firstDangling?_dedup (nodes.map Node.output) nodes
  cases hbuild : build nodes with
  | ok g =>
      obtain rfl := build_eq_ok_iff.1 hbuild
      exact build_eq_ok_iff.2 rfl
  | error e =>
      apply build_eq_error_iff.2
      rw [houtputs, hdangling]
      exact build_eq_error_iff.1 hbuild

variable (g : Graph)

theorem producer?_dedup (x : Name) : g.dedup.producer? x = (g.producer? x).map Node.dedup := by
  rw [producer?, dedup, List.find?_map, producer?]
  rfl

theorem outputs_dedup : g.dedup.outputs = g.outputs :=
  Node.map_output_dedup g.nodes

theorem isRead_dedup (x : Name) : g.dedup.isRead x = g.isRead x := by
  rw [isRead, dedup, List.any_map, isRead]
  congr 1
  funext n
  simp only [Function.comp_apply, Node.mem_inputs_dedup]

theorem roots_dedup : g.dedup.roots = g.roots := by
  simp only [roots, outputs_dedup, isRead_dedup]

theorem starts_dedup (policy : CyclePolicy) : g.dedup.starts policy = g.starts policy := by
  cases policy with
  | reject => rw [starts, roots_dedup, outputs_dedup, starts]
  | tolerate => exact roots_dedup g

end Graph

/-! ## The walk -/

/-- Lists every input once. Of those that are left, the ones that have been dealt with are done. -/
def Frame.dedup (f : Frame) : Frame where
  node := f.node.dedup
  pending := (f.pending.filter (· ∉ f.dealt)).eraseDups

theorem Frame.dedup_entered (n : Node) :
    Frame.dedup ⟨n, n.inputs⟩ = ⟨n.dedup, n.dedup.inputs⟩ := by
  have hdealt : Frame.dealt ⟨n, n.inputs⟩ = [] := Frame.dealt_eq rfl
  have hall : n.inputs.filter (· ∉ ([] : List Name)) = n.inputs := by simp
  rw [Frame.dedup, hdealt, hall]
  rfl

namespace Walk

variable {g : Graph} {policy : CyclePolicy} {w w' : Walk}

section

variable {settled : Name → Name → Prop} {n : Node} {input : Name} {pending : List Name}
  {below : List Frame}

/-- An input that is mentioned again is not listed again. -/
theorem dedup_of_mem_dealt (h : Linked settled [] (⟨n, input :: pending⟩ :: below))
    (hinput : input ∈ Frame.dealt ⟨n, input :: pending⟩) :
    Frame.dedup ⟨n, input :: pending⟩ = Frame.dedup ⟨n, pending⟩ := by
  have hsame : ∀ x, (x ∉ Frame.dealt ⟨n, input :: pending⟩ ++ [input]) ↔
      x ∉ Frame.dealt ⟨n, input :: pending⟩ := by
    intro x
    rw [List.mem_append, List.mem_singleton, not_or]
    exact and_iff_left_of_imp fun hx heq => hx (heq ▸ hinput)
  simp only [Frame.dedup, dealt_advance h, hsame, List.filter_cons, hinput, not_true_eq_false,
    decide_false, Bool.false_eq_true, if_false]

/-- An input that is mentioned for the first time comes next. -/
theorem dedup_of_not_mem_dealt (h : Linked settled [] (⟨n, input :: pending⟩ :: below))
    (hinput : input ∉ Frame.dealt ⟨n, input :: pending⟩) :
    Frame.dedup ⟨n, input :: pending⟩ = ⟨n.dedup, input :: (Frame.dedup ⟨n, pending⟩).pending⟩ := by
  have hleft : (pending.filter (· ∉ Frame.dealt ⟨n, input :: pending⟩)).filter (!· == input) =
      pending.filter (· ∉ Frame.dealt ⟨n, input :: pending⟩ ++ [input]) := by
    rw [List.filter_filter]
    apply List.filter_congr
    intro x _
    rw [Bool.eq_iff_iff]
    simp only [Bool.and_eq_true, Bool.not_eq_true', beq_eq_false_iff_ne, decide_eq_true_eq,
      List.mem_append, List.mem_singleton, not_or]
    exact and_comm
  simp only [Frame.dedup, dealt_advance h, List.filter_cons, hinput, not_false_eq_true,
    decide_true, if_true, List.eraseDups_cons, hleft]

end

/-- The second walk is in the state of the first one, without the repeated inputs. -/
structure Dedups (w w' : Walk) : Prop where
  /-- The same values have been met. -/
  marks : w'.marks = w.marks
  /-- The same operations are on the stack. -/
  stack : w'.stack = w.stack.map Frame.dedup
  /-- The same operations have been emitted. -/
  emitted : w'.emitted = w.emitted.map Node.dedup

namespace Dedups

variable {n m : Node} {input : Name} {pending : List Name} {below : List Frame}

theorem emit (h : Dedups w w') : Dedups (w.emit n below) (w'.emit n.dedup (below.map Frame.dedup))
    where
  marks := congrArg (Roster.put · n.output Mark.done) h.marks
  stack := rfl
  emitted := congrArg (n.dedup :: ·) h.emitted

theorem enter (h : Dedups w w') : Dedups (w.enter n) (w'.enter n.dedup) where
  marks := congrArg (Roster.put · n.output Mark.underway) h.marks
  stack := by
    show _ :: w'.stack = Frame.dedup ⟨n, n.inputs⟩ :: w.stack.map Frame.dedup
    rw [Frame.dedup_entered, h.stack]
  emitted := h.emitted

/-- After a repeated input the second walk is where it was. -/
theorem advance_of_mem_dealt (h : Dedups w w') (hreached : Reached g policy w)
    (htop : w.stack = ⟨n, input :: pending⟩ :: below)
    (hinput : input ∈ Frame.dealt ⟨n, input :: pending⟩) :
    Dedups (w.advance n pending below) w' where
  marks := h.marks
  stack := by
    have hlinked := hreached.waiting.linked
    rw [htop] at hlinked
    rw [h.stack, htop, List.map_cons, dedup_of_mem_dealt hlinked hinput]
    rfl
  emitted := h.emitted

/-- An input that is mentioned for the first time is next in the second walk, too. -/
theorem exists_top (h : Dedups w w') (hreached : Reached g policy w)
    (htop : w.stack = ⟨n, input :: pending⟩ :: below)
    (hinput : input ∉ Frame.dealt ⟨n, input :: pending⟩) :
    ∃ pending', w'.stack = ⟨n.dedup, input :: pending'⟩ :: below.map Frame.dedup ∧
      Dedups (w.advance n pending below) (w'.advance n.dedup pending' (below.map Frame.dedup)) := by
  have hlinked := hreached.waiting.linked
  rw [htop] at hlinked
  refine ⟨(Frame.dedup ⟨n, pending⟩).pending, ?_, h.marks, rfl, h.emitted⟩
  rw [h.stack, htop, List.map_cons, dedup_of_not_mem_dealt hlinked hinput]

end Dedups

theorem cycleTo_dedup (stack : List Frame) (input : Name) :
    cycleTo (stack.map Frame.dedup) input = cycleTo stack input := by
  rw [cycleTo, List.map_map, cycleTo]
  rfl

/-- **The walk without the repeated inputs keeps up**: it stands still where an input is repeated,
and otherwise makes the same move. -/
theorem simulates_dedups (g : Graph) (policy : CyclePolicy) :
    Simulates g g.dedup policy Dedups where
  onward := by
    intro w w' v hreached h hstep
    cases move_of_step hstep with
    | @emit n below htop =>
        have htop' : w'.stack = ⟨n.dedup, []⟩ :: below.map Frame.dedup := by
          rw [h.stack, htop]
          rfl
        exact ⟨_, .single (step_of_nil htop'), h.emit⟩
    | @pass n input pending below htop hdone =>
        by_cases hinput : input ∈ Frame.dealt ⟨n, input :: pending⟩
        · exact ⟨w', .refl, h.advance_of_mem_dealt hreached htop hinput⟩
        · obtain ⟨pending', htop', h'⟩ := h.exists_top hreached htop hinput
          rw [← h.marks] at hdone
          exact ⟨_, .single (step_of_done htop' hdone), h'⟩
    | @drop n input pending below htop hunderway hpolicy =>
        subst hpolicy
        by_cases hinput : input ∈ Frame.dealt ⟨n, input :: pending⟩
        · obtain ⟨hmarks, hstack, hemitted⟩ := h.advance_of_mem_dealt hreached htop hinput
          exact ⟨w', .refl, hmarks, hstack, hemitted⟩
        · obtain ⟨pending', htop', hmarks, hstack, hemitted⟩ := h.exists_top hreached htop hinput
          rw [← h.marks] at hunderway
          exact ⟨_, .single (step_of_underway htop' hunderway), hmarks, hstack, hemitted⟩
    | @enter n m input pending below htop hnew hproducer =>
        -- What has been dealt with has been met, so this is the first mention.
        have hinput : input ∉ Frame.dealt ⟨n, input :: pending⟩ := fun hmem =>
          hreached.met_of_mem_dealt htop hmem hnew
        obtain ⟨pending', htop', h'⟩ := h.exists_top hreached htop hinput
        rw [← h.marks] at hnew
        have hproducer' : g.dedup.producer? input = some m.dedup := by
          rw [Graph.producer?_dedup, hproducer]
          rfl
        exact ⟨_, .single (step_of_new htop' hnew hproducer'), h'.enter⟩
    | @stray n input pending below htop hproducer =>
        -- The graph is closed, so this move is never made.
        exact absurd hproducer (producer?_ne_none_of_top hreached.marked hreached.waiting htop)
  idle := by
    intro w w' h hidle
    rw [h.stack, hidle, List.map_nil]
  cycle := by
    intro w w' path hreached h hstep
    obtain ⟨rfl, n, input, pending, below, htop, hunderway, rfl⟩ := step_eq_cycle_iff.1 hstep
    -- Nothing is dropped here, so what has been dealt with has been emitted.
    have hinput : input ∉ Frame.dealt ⟨n, input :: pending⟩ := by
      intro hmem
      rcases hreached.settled_of_mem_dealt htop hmem with hfinished | hdropped
      · rw [(hreached.marked.done_iff input).2 hfinished] at hunderway
        cases hunderway
      · rw [hreached.dropped_eq_nil] at hdropped
        cases hdropped
    obtain ⟨pending', htop', -⟩ := h.exists_top hreached htop hinput
    rw [← h.marks] at hunderway
    refine step_eq_cycle_iff.2 ⟨rfl, n.dedup, input, pending', _, htop', hunderway, ?_⟩
    rw [h.stack, cycleTo_dedup]

end Walk

/-! ## Sorting -/

/-- Lists every input of every operation once. -/
def Schedule.dedup (s : Schedule) : Schedule :=
  ⟨s.nodes.map Node.dedup⟩

namespace Graph

open Walk

/-- Walks from the same starts agree. -/
theorem agree_foldlM_visit_dedup (g : Graph) (policy : CyclePolicy) :
    Agree (AtRest g policy Dedups) ((g.starts policy).foldlM (visit g policy) .start)
      ((g.dedup.starts policy).foldlM (visit g.dedup policy) .start) := by
  rw [starts_dedup]
  apply Agree.foldlM
  · intro w w' x hx hrest
    obtain ⟨n, hproducer⟩ := exists_producer? (mem_outputs_of_mem_starts hx)
    have hproducer' : g.dedup.producer? x = some n.dedup := by
      rw [producer?_dedup, hproducer]
      rfl
    exact (simulates_dedups g policy).visit hrest (by rw [hrest.related.marks]) hproducer
      hproducer' fun _ => hrest.related.enter
  · exact ⟨.start, rfl, rfl, rfl, rfl⟩

/-- **Sorting without repeated inputs gives the schedule without them**, or the same cycle. -/
theorem sort_dedup (g : Graph) (policy : CyclePolicy) :
    g.dedup.sort policy = (g.sort policy).map Schedule.dedup := by
  have hagree := agree_foldlM_visit_dedup g policy
  cases hsort : g.sort policy with
  | ok s =>
      obtain ⟨w, hvisits, rfl⟩ := sort_eq_ok_iff.1 hsort
      rw [hvisits] at hagree
      obtain ⟨w', hvisits', hrest⟩ := hagree.exists_ok
      refine sort_eq_ok_iff.2 ⟨w', hvisits', ?_⟩
      rw [Schedule.dedup, hrest.related.emitted, List.map_reverse]
  | error e =>
      rw [sort_eq_error_iff.1 hsort] at hagree
      exact sort_eq_error_iff.2 hagree.eq_error

/-- The cycle of `a` and `b` is cut at `b`, which mentions `a` twice and so drops it twice. Without
the repeats it is dropped once; the order is the same. -/
example :
    let g : Graph :=
      ⟨[⟨"out", ["a", "a"]⟩, ⟨"a", ["b", "b"]⟩, ⟨"b", ["a", "k", "a", "k"]⟩, ⟨"k", []⟩],
        by decide, by decide⟩
    g.sorting .tolerate =
        .ok ⟨⟨[⟨"k", []⟩, ⟨"b", ["a", "k", "a", "k"]⟩, ⟨"a", ["b", "b"]⟩, ⟨"out", ["a", "a"]⟩]⟩,
          [("b", "a"), ("b", "a")], 0⟩ ∧
      g.dedup.sorting .tolerate =
        .ok ⟨⟨[⟨"k", []⟩, ⟨"b", ["a", "k"]⟩, ⟨"a", ["b"]⟩, ⟨"out", ["a"]⟩]⟩, [("b", "a")], 0⟩ := by
  decide +kernel

end Graph

end SlotPlan
