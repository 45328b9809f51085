import SlotPlan.Plan.Trace
import SlotPlan.Proofs.Cuts
import SlotPlan.Proofs.Graph.Tolerating

/-!
# The dependencies that are dropped are those that the schedule breaks

A dependency is dropped while its reader is on the stack, long before the positions of the schedule
are known. What keeps the account is `Walk.Reached.dropped_perm`: in every state, what has been dropped
is what the operations on the stack have dropped (`Walk.dropsOf`) and what the emitted operations break
(`Schedule.broken`), each as often as it is mentioned. When an operation is emitted, the inputs that it
has dropped are still on the stack, and those that it has not dropped have been emitted
(`Walk.Reached.mem_entered_iff_of_emit`), so its part of the account passes from the one side to the
other.

At the end the stack is empty, so the warnings of the tolerating policy name exactly the broken
dependencies (`Graph.dropped_warnings_are_broken`).
-/

set_option autoImplicit false

namespace SlotPlan

namespace Schedule

/-! ## Broken dependencies -/

/-- The dependencies that a schedule breaks, as reader and input: every mention of an input that is
not produced strictly before its reader. -/
def broken (s : Schedule) : List (Name × Name) :=
  (cuts s.nodes).flatMap fun (before, n) =>
    (n.inputs.filter (· ∉ before.map Node.output)).map fun x => (n.output, x)

/-- An operation at the end breaks its dependencies on whatever was not produced before. -/
theorem broken_concat (nodes : List Node) (n : Node) :
    broken ⟨nodes ++ [n]⟩ = broken ⟨nodes⟩ ++
      (n.inputs.filter (· ∉ nodes.map Node.output)).map fun x => (n.output, x) := by
  simp only [broken, cuts_concat, List.flatMap_append, List.flatMap_singleton]

theorem broken_eq_nil_iff {s : Schedule} :
    s.broken = [] ↔ ∀ before n after, s.nodes = before ++ n :: after →
      ∀ x ∈ n.inputs, x ∈ before.map Node.output := by
  rw [broken, List.flatMap_eq_nil_iff]
  constructor
  · intro h before n after hsplit x hx
    have hnone := h (before, n) (mem_cuts_iff.2 ⟨after, hsplit⟩)
    rw [List.map_eq_nil_iff, List.filter_eq_nil_iff] at hnone
    simpa using hnone x hx
  · rintro h ⟨before, n⟩ hcut
    obtain ⟨after, hsplit⟩ := mem_cuts_iff.1 hcut
    rw [List.map_eq_nil_iff, List.filter_eq_nil_iff]
    intro x hx
    simpa using h before n after hsplit x hx

/-- A schedule that produces no value twice is valid exactly if it breaks no dependency. -/
theorem valid_iff_broken_eq_nil {s : Schedule} (h : s.outputs.Nodup) :
    s.Valid ↔ s.broken = [] := by
  rw [broken_eq_nil_iff]
  constructor
  · intro hvalid before n after hsplit
    exact (hvalid before n after hsplit).1
  · intro hinputs before n after hsplit
    exact ⟨hinputs before n after hsplit, not_mem_before_of_nodup h hsplit⟩

end Schedule

/-! ## The account of a stack -/

/-- The inputs that an operation on the stack has dealt with. -/
def Frame.dealt (f : Frame) : List Name :=
  f.node.inputs.take (f.node.inputs.length - f.pending.length)

theorem Frame.dealt_eq {f : Frame} {dealt : List Name} (h : f.node.inputs = dealt ++ f.pending) :
    f.dealt = dealt := by
  rw [Frame.dealt, h]
  apply List.take_left'
  rw [List.length_append, Nat.add_sub_cancel]

/-- Where nothing is pending, all inputs have been dealt with. -/
theorem Frame.dealt_of_nil (n : Node) : Frame.dealt ⟨n, []⟩ = n.inputs :=
  Frame.dealt_eq (List.append_nil n.inputs).symm

/-- Of the inputs that an operation on the stack has dealt with, its dependencies on those that are
among the values given. -/
def Frame.dropsAmong (f : Frame) (values : List Name) : List (Name × Name) :=
  (f.dealt.filter (· ∈ values)).map fun x => (f.node.output, x)

namespace Walk

variable {g : Graph} {policy : CyclePolicy}

/-- What the operations on a stack have dropped: of the inputs they have dealt with, those whose
operation is not above them. -/
def dropsOf : List Frame → List (Name × Name)
  | [] => []
  | f :: below => f.dropsAmong ((f :: below).map (·.node.output)) ++ dropsOf below

/-- Dealing with the next input of the operation on top. -/
theorem dealt_advance {settled : Name → Name → Prop} {n : Node} {input : Name}
    {pending : List Name} {below : List Frame}
    (h : Linked settled [] (⟨n, input :: pending⟩ :: below)) :
    Frame.dealt ⟨n, pending⟩ = Frame.dealt ⟨n, input :: pending⟩ ++ [input] := by
  obtain ⟨⟨dealt, hinputs, -⟩, -⟩ := h
  rw [List.append_nil] at hinputs
  rw [Frame.dealt_eq hinputs]
  apply Frame.dealt_eq
  rw [hinputs, List.append_cons]

/-- An input whose operation is not on the stack leaves the account as it is. -/
theorem dropsOf_advance_of_not_mem {settled : Name → Name → Prop} {n : Node} {input : Name}
    {pending : List Name} {below : List Frame}
    (h : Linked settled [] (⟨n, input :: pending⟩ :: below))
    (hout : input ∉ n.output :: below.map (·.node.output)) :
    dropsOf (⟨n, pending⟩ :: below) = dropsOf (⟨n, input :: pending⟩ :: below) := by
  simp only [dropsOf, Frame.dropsAmong, List.map_cons, dealt_advance h, List.filter_append,
    List.filter_singleton, hout, decide_false, cond_false, List.append_nil]

/-- An input whose operation is on the stack is added to the account. -/
theorem dropsOf_advance_of_mem {settled : Name → Name → Prop} {n : Node} {input : Name}
    {pending : List Name} {below : List Frame}
    (h : Linked settled [] (⟨n, input :: pending⟩ :: below))
    (hin : input ∈ n.output :: below.map (·.node.output)) :
    (dropsOf (⟨n, pending⟩ :: below)).Perm
      ((n.output, input) :: dropsOf (⟨n, input :: pending⟩ :: below)) := by
  simp only [dropsOf, Frame.dropsAmong, List.map_cons, dealt_advance h, List.filter_append,
    List.filter_singleton, hin, decide_true, cond_true, List.map_append, List.map_nil,
    List.append_assoc, List.singleton_append]
  exact List.perm_middle

/-- An operation that has just been entered has dropped nothing. -/
theorem dropsOf_entered (n : Node) (below : List Frame) :
    dropsOf (⟨n, n.inputs⟩ :: below) = dropsOf below := by
  simp only [dropsOf, Frame.dropsAmong, Frame.dealt, Nat.sub_self, List.take_zero, List.filter_nil,
    List.map_nil, List.nil_append]

/-- The inputs that the operation on top has dealt with have been emitted, or it has dropped them. -/
theorem Reached.settled_of_mem_dealt {w : Walk} (h : Reached g policy w) {n : Node}
    {pending : List Name} {below : List Frame} (htop : w.stack = ⟨n, pending⟩ :: below) {x : Name}
    (hx : x ∈ Frame.dealt ⟨n, pending⟩) : w.Settled n.output x := by
  have hlinked := h.waiting.linked
  rw [htop] at hlinked
  obtain ⟨⟨dealt, hinputs, hdealt⟩, -⟩ := hlinked
  rw [List.append_nil] at hinputs
  rw [Frame.dealt_eq hinputs] at hx
  exact hdealt x hx

/-- The inputs that the operation on top has dealt with have been met. -/
theorem Reached.met_of_mem_dealt {w : Walk} (h : Reached g policy w) {n : Node}
    {pending : List Name} {below : List Frame} (htop : w.stack = ⟨n, pending⟩ :: below) {x : Name}
    (hx : x ∈ Frame.dealt ⟨n, pending⟩) : w.Met x := by
  rcases h.settled_of_mem_dealt htop hx with hfinished | hdropped
  · exact met_of_mark ((h.marked.done_iff x).2 hfinished)
  · exact (h.of_dropped hdropped).1

/-- When an operation is emitted, its inputs are on the stack or have been emitted. -/
theorem Reached.mem_entered_iff_of_emit {w : Walk} (h : Reached g policy w) {n : Node}
    {below : List Frame} (htop : w.stack = ⟨n, []⟩ :: below) {x : Name} (hx : x ∈ n.inputs) :
    x ∈ w.entered ↔ x ∉ w.finished := by
  apply h.marked.mem_entered_iff_of_met
  apply h.met_of_mem_dealt htop
  rw [Frame.dealt_of_nil]
  exact hx

/-- What an operation has dropped when it is emitted is what it breaks in the schedule. -/
theorem Reached.dropsAmong_of_emit {w : Walk} (h : Reached g policy w) {n : Node}
    {below : List Frame} (htop : w.stack = ⟨n, []⟩ :: below) :
    Frame.dropsAmong ⟨n, []⟩ w.entered =
      (n.inputs.filter (· ∉ w.emitted.reverse.map Node.output)).map fun x => (n.output, x) := by
  rw [Frame.dropsAmong, Frame.dealt_of_nil]
  congr 1
  apply List.filter_congr
  intro x hx
  rw [decide_eq_decide, List.map_reverse, List.mem_reverse]
  exact h.mem_entered_iff_of_emit htop hx

/-! ## The account of a walk -/

/-- **Whatever a walk has dropped is accounted for**, by the operations on the stack and by those that
have been emitted. -/
theorem Reached.dropped_perm {w : Walk} (h : Reached g policy w) :
    w.dropped.Perm (dropsOf w.stack ++ Schedule.broken ⟨w.emitted.reverse⟩) := by
  induction h with
  | start => exact List.Perm.refl _
  | @enter w n _ _ _ _ ih =>
      show w.dropped.Perm (dropsOf (⟨n, n.inputs⟩ :: w.stack) ++ _)
      rw [dropsOf_entered]
      exact ih
  | @step w w' hreached hstep ih =>
      have hlinked := hreached.waiting.linked
      have hmarked := hreached.marked
      cases move_of_step hstep with
      | @emit n below htop =>
          -- The part of the top operation passes from the stack to the schedule.
          have hdrops := hreached.dropsAmong_of_emit htop
          rw [entered_eq_cons htop] at hdrops
          rw [htop, dropsOf, List.map_cons, hdrops, List.append_assoc] at ih
          show w.dropped.Perm (dropsOf below ++ Schedule.broken ⟨(n :: w.emitted).reverse⟩)
          rw [List.reverse_cons, Schedule.broken_concat, ← List.append_assoc]
          exact ih.trans List.perm_append_comm
      | @pass n input pending below htop hdone =>
          have hout : input ∉ w.entered := by
            rw [← hmarked.underway_iff, hdone]
            simp
          rw [entered_eq_cons htop] at hout
          rw [htop] at ih hlinked
          rwa [← dropsOf_advance_of_not_mem hlinked hout] at ih
      | @drop n input pending below htop hunderway _ =>
          have hin := (hmarked.underway_iff input).1 hunderway
          rw [entered_eq_cons htop] at hin
          rw [htop] at ih hlinked
          have hadd := (dropsOf_advance_of_mem hlinked hin).symm.append_right
            (Schedule.broken ⟨w.emitted.reverse⟩)
          exact (ih.cons _).trans hadd
      | @enter n m input pending below htop hnew _ =>
          have hout : input ∉ w.entered := by
            rw [← hmarked.underway_iff, hnew]
            simp
          rw [entered_eq_cons htop] at hout
          rw [htop] at ih hlinked
          rw [← dropsOf_advance_of_not_mem hlinked hout] at ih
          show w.dropped.Perm (dropsOf (⟨m, m.inputs⟩ :: ⟨n, pending⟩ :: below) ++ _)
          rw [dropsOf_entered]
          exact ih
      | @stray n input pending below htop hproducer =>
          -- The graph is closed, so this move is never made.
          exact absurd hproducer (producer?_ne_none_of_top hmarked hreached.waiting htop)

end Walk

namespace Graph

variable {g : Graph} {policy : CyclePolicy}

/-! ## Warnings -/

/-- Under either policy, sorting drops the dependencies that its schedule breaks, and counts the
operations that are not scheduled. -/
theorem sorting_drops_broken {r : Sorting} (h : g.sorting policy = .ok r) :
    r.dropped.Perm r.schedule.broken ∧ r.schedule.size + r.unreached = g.size := by
  obtain ⟨w, hvisits, rfl⟩ := sorting_eq_ok_iff.1 h
  obtain ⟨hreached, hidle, -, -⟩ := Walk.foldlM_visit_ok Walk.Reached.start rfl hvisits
  constructor
  · have hperm := hreached.dropped_perm
    rw [hidle] at hperm
    exact (List.reverse_perm _).trans hperm
  · have hsort : g.sort policy = .ok ⟨w.emitted.reverse⟩ := sort_eq_ok_iff.2 ⟨w, hvisits, rfl⟩
    have hle : w.emitted.reverse.length ≤ g.size := (subperm_of_sort hsort).length_le
    show w.emitted.reverse.length + (g.size - w.emitted.length) = g.size
    rw [List.length_reverse] at hle ⊢
    omega

/-- **The warnings of the tolerating policy name exactly the dependencies that its schedule breaks**,
each as often as it is mentioned. After them comes a warning with the number of operations that are
not scheduled, if there are any. So the schedule is valid exactly if no dependency is named. -/
theorem dropped_warnings_are_broken (g : Graph) :
    ∃ s dropped unreached, (g.sortTraced .tolerate).result = .ok s ∧
      (g.sortTraced .tolerate).events =
        .sorting g.roots.length g.size ::
          (dropped.map (fun (reader, input) => .dependencyDropped reader input) ++
            if unreached > 0 then [.operationsOmitted unreached] else []) ∧
      dropped.Perm s.broken ∧ s.size + unreached = g.size ∧
      (s.validate = .ok () ↔ dropped = []) := by
  obtain ⟨s, hsort⟩ := exists_sort_tolerate g
  have hresult : (g.sortTraced .tolerate).result = .ok s := (g.result_sortTraced _).trans hsort
  obtain ⟨r, hsorting, rfl⟩ := map_eq_ok_iff.1 hsort
  obtain ⟨hperm, hsize⟩ := sorting_drops_broken hsorting
  refine ⟨r.schedule, r.dropped, r.unreached, hresult, ?_, hperm, hsize, ?_⟩
  · exact events_sortTraced hsorting
  · rw [Schedule.validate_eq_ok_iff, Schedule.valid_iff_broken_eq_nil (nodup_outputs_of_sort hsort)]
    exact ⟨fun hnone => (hnone ▸ hperm).eq_nil, fun hnone => (hnone ▸ hperm.symm).eq_nil⟩

/-- The cycle of `a` and `b` is cut at `b`, which mentions `a` twice and itself once; `a` drops
nothing, although it mentions `b` twice. The operation of `c` is not scheduled. -/
example :
    let g : Graph := ⟨[⟨"out", ["a"]⟩, ⟨"a", ["b", "b"]⟩, ⟨"b", ["a", "b", "a"]⟩, ⟨"c", ["c"]⟩],
      by decide, by decide⟩
    g.sorting .tolerate =
      .ok ⟨⟨[⟨"b", ["a", "b", "a"]⟩, ⟨"a", ["b", "b"]⟩, ⟨"out", ["a"]⟩]⟩,
        [("b", "a"), ("b", "b"), ("b", "a")], 1⟩ := by
  decide +kernel

end Graph

end SlotPlan
