import Mathlib.Data.List.Nodup
import SlotPlan.Proofs.Graph.Reached

/-!
# What every walk keeps

Two invariants hold in every state that a walk reaches, under both policies.

- `Walk.Marked`: the marks tell the stack from what has been emitted, and no operation is entered
  twice (`Walk.Reached.marked`).
- `Walk.Waiting`: every operation on the stack waits for the one above it, and an input that it has
  dealt with was emitted or dropped; an emitted operation has no other input
  (`Walk.Reached.waiting`).

So the values on the stack depend on one another from the bottom to the top (`Walk.Linked.isChain`).
A move that finds a cycle finds a real one (`Walk.exists_onCycle_of_step`), and only a dependency
that lies on a cycle is dropped (`Walk.Reached.of_dropped`).
-/

set_option autoImplicit false

namespace SlotPlan

namespace Walk

variable {g : Graph} {policy : CyclePolicy}

/-- The values whose operations are on the stack, the latest first. -/
def entered (w : Walk) : List Name :=
  w.stack.map (·.node.output)

/-- The values whose operations have been emitted, the latest first. -/
def finished (w : Walk) : List Name :=
  w.emitted.map Node.output

theorem entered_eq_cons {w : Walk} {n : Node} {pending : List Name} {below : List Frame}
    (htop : w.stack = ⟨n, pending⟩ :: below) :
    w.entered = n.output :: below.map (·.node.output) := by
  rw [entered, htop, List.map_cons]

/-- Dealing with an input leaves the operations on the stack. -/
theorem entered_advance {w : Walk} {n : Node} {dealt pending : List Name} {below : List Frame}
    (htop : w.stack = ⟨n, dealt⟩ :: below) : (w.advance n pending below).entered = w.entered := by
  rw [entered_eq_cons htop]
  rfl

theorem entered_enter (w : Walk) (n : Node) : (w.enter n).entered = n.output :: w.entered :=
  rfl

theorem finished_emit (w : Walk) (n : Node) (below : List Frame) :
    (w.emit n below).finished = n.output :: w.finished :=
  rfl

/-! ## Marks, stack and emitted operations -/

/-- The marks are those of the stack and of the emitted operations, and nothing is there twice. -/
structure Marked (g : Graph) (w : Walk) : Prop where
  /-- The operations on the stack belong to the graph. -/
  stack_mem : ∀ f ∈ w.stack, f.node ∈ g.nodes
  /-- The emitted operations belong to the graph. -/
  emitted_mem : ∀ n ∈ w.emitted, n ∈ g.nodes
  /-- What is marked as underway is on the stack. -/
  underway_iff : ∀ x, w.marks.get? x = some .underway ↔ x ∈ w.entered
  /-- What is marked as done has been emitted. -/
  done_iff : ∀ x, w.marks.get? x = some .done ↔ x ∈ w.finished
  /-- No operation is on the stack twice. -/
  nodup_entered : w.entered.Nodup
  /-- No operation has been emitted twice. -/
  nodup_finished : w.finished.Nodup

namespace Marked

variable {w : Walk}

theorem start : Marked g start where
  stack_mem := fun _ hf => absurd hf List.not_mem_nil
  emitted_mem := fun _ hn => absurd hn List.not_mem_nil
  underway_iff := fun x => by simp [Walk.start, entered]
  done_iff := fun x => by simp [Walk.start, finished]
  nodup_entered := List.nodup_nil
  nodup_finished := List.nodup_nil

theorem advance (h : Marked g w) {n : Node} {dealt pending : List Name} {below : List Frame}
    (htop : w.stack = ⟨n, dealt⟩ :: below) : Marked g (w.advance n pending below) := by
  refine ⟨?_, h.emitted_mem, ?_, h.done_iff, ?_, h.nodup_finished⟩
  · intro f hf
    rcases List.mem_cons.1 hf with rfl | hf
    · exact h.stack_mem ⟨n, dealt⟩ (htop ▸ List.mem_cons_self)
    · exact h.stack_mem f (htop ▸ List.mem_cons_of_mem _ hf)
  · rw [entered_advance htop]
    exact h.underway_iff
  · rw [entered_advance htop]
    exact h.nodup_entered

theorem drop (h : Marked g w) (n : Node) (input : Name) : Marked g (w.drop n input) :=
  ⟨h.stack_mem, h.emitted_mem, h.underway_iff, h.done_iff, h.nodup_entered, h.nodup_finished⟩

theorem enter (h : Marked g w) {n : Node} (hn : n ∈ g.nodes)
    (hnew : w.marks.get? n.output = none) : Marked g (w.enter n) := by
  -- A value without a mark is neither on the stack nor emitted.
  have hnot : n.output ∉ w.entered := by
    rw [← h.underway_iff, hnew]
    simp
  have hnotdone : n.output ∉ w.finished := by
    rw [← h.done_iff, hnew]
    simp
  refine ⟨?_, h.emitted_mem, ?_, ?_, ?_, h.nodup_finished⟩
  · intro f hf
    rcases List.mem_cons.1 hf with rfl | hf
    · exact hn
    · exact h.stack_mem f hf
  · intro x
    show (w.marks.put n.output .underway).get? x = some .underway ↔ x ∈ n.output :: w.entered
    by_cases hx : x = n.output
    · subst hx
      rw [Roster.get?_put_self]
      exact iff_of_true rfl List.mem_cons_self
    · rw [Roster.get?_put_of_ne _ _ hx, h.underway_iff, List.mem_cons, or_iff_right hx]
  · intro x
    show (w.marks.put n.output .underway).get? x = some .done ↔ x ∈ w.finished
    by_cases hx : x = n.output
    · subst hx
      rw [Roster.get?_put_self]
      exact iff_of_false (by simp) hnotdone
    · rw [Roster.get?_put_of_ne _ _ hx, h.done_iff]
  · rw [entered_enter, List.nodup_cons]
    exact ⟨hnot, h.nodup_entered⟩

theorem emit (h : Marked g w) {n : Node} {below : List Frame} (htop : w.stack = ⟨n, []⟩ :: below) :
    Marked g (w.emit n below) := by
  have hold : w.entered = n.output :: (w.emit n below).entered := entered_eq_cons htop
  -- The value on top is nowhere below, and has not been emitted before.
  obtain ⟨hnot, hnodup⟩ := List.nodup_cons.1 (hold ▸ h.nodup_entered)
  have hnotdone : n.output ∉ w.finished := by
    rw [← h.done_iff, (h.underway_iff n.output).2 (hold ▸ List.mem_cons_self)]
    simp
  refine ⟨?_, ?_, ?_, ?_, hnodup, ?_⟩
  · intro f hf
    exact h.stack_mem f (htop ▸ List.mem_cons_of_mem _ hf)
  · intro m hm
    rcases List.mem_cons.1 hm with rfl | hm
    · exact h.stack_mem ⟨m, []⟩ (htop ▸ List.mem_cons_self)
    · exact h.emitted_mem m hm
  · intro x
    show (w.marks.put n.output .done).get? x = some .underway ↔ x ∈ (w.emit n below).entered
    by_cases hx : x = n.output
    · subst hx
      rw [Roster.get?_put_self]
      exact iff_of_false (by simp) hnot
    · rw [Roster.get?_put_of_ne _ _ hx, h.underway_iff, hold, List.mem_cons, or_iff_right hx]
  · intro x
    show (w.marks.put n.output .done).get? x = some .done ↔ x ∈ n.output :: w.finished
    by_cases hx : x = n.output
    · subst hx
      rw [Roster.get?_put_self]
      exact iff_of_true rfl List.mem_cons_self
    · rw [Roster.get?_put_of_ne _ _ hx, h.done_iff, List.mem_cons, or_iff_right hx]
  · rw [finished_emit, List.nodup_cons]
    exact ⟨hnotdone, h.nodup_finished⟩

/-- A value that has been met is on the stack, or it has been emitted, and never both. -/
theorem mem_entered_iff_of_met (h : Marked g w) {x : Name} (hmet : w.Met x) :
    x ∈ w.entered ↔ x ∉ w.finished := by
  rw [← h.underway_iff, ← h.done_iff]
  cases hmark : w.marks.get? x with
  | none => exact absurd hmark hmet
  | some mark => cases mark <;> simp

end Marked

theorem Reached.marked {w : Walk} (h : Reached g policy w) : Marked g w := by
  -- Only entering and emitting change the marks; the other moves take an input off the top.
  induction h with
  | start => exact .start
  | enter _ _ hn hnew ih => exact ih.enter hn hnew
  | step _ hstep ih =>
      cases move_of_step hstep with
      | emit htop => exact ih.emit htop
      | pass htop _ => exact ih.advance htop
      | drop htop _ _ => exact (ih.advance htop).drop _ _
      | enter htop hnew hproducer =>
          rw [← Graph.output_of_producer?_eq_some hproducer] at hnew
          exact (ih.advance htop).enter (Graph.mem_of_producer?_eq_some hproducer) hnew
      | stray htop _ => exact ih.advance htop

/-! ## Who waits for whom -/

/-- Every operation on a stack waits for the one above it: of its inputs it has settled the first
ones, then comes what it waits for, `awaited`, and the pending ones are left. -/
def Linked (settled : Name → Name → Prop) : List Name → List Frame → Prop
  | _, [] => True
  | awaited, f :: below =>
    (∃ dealt, f.node.inputs = dealt ++ awaited ++ f.pending ∧ ∀ x ∈ dealt, settled f.node.output x) ∧
      Linked settled [f.node.output] below

namespace Linked

variable {settled settled' : Name → Name → Prop}

theorem mono (hle : ∀ reader x, settled reader x → settled' reader x) :
    ∀ {awaited : List Name} {fs : List Frame},
      Linked settled awaited fs → Linked settled' awaited fs
  | _, [], _ => trivial
  | _, _ :: _, ⟨⟨dealt, hinputs, hdealt⟩, hbelow⟩ =>
      ⟨⟨dealt, hinputs, fun x hx => hle _ x (hdealt x hx)⟩, mono hle hbelow⟩

/-- The operation on top deals with its next input, which is settled. -/
theorem advance {n : Node} {input : Name} {pending : List Name} {below : List Frame}
    (h : Linked settled [] (⟨n, input :: pending⟩ :: below)) (hsettled : settled n.output input) :
    Linked settled [] (⟨n, pending⟩ :: below) := by
  obtain ⟨⟨dealt, hinputs, hdealt⟩, hbelow⟩ := h
  refine ⟨⟨dealt ++ [input], ?_, ?_⟩, hbelow⟩
  · rw [hinputs, List.append_nil, List.append_nil, List.append_assoc, List.singleton_append]
  · intro x hx
    rcases List.mem_append.1 hx with hx | hx
    · exact hdealt x hx
    · rw [List.mem_singleton.1 hx]
      exact hsettled

/-- The operation on top waits for the operation of its next input. -/
theorem enter {n m : Node} {pending : List Name} {below : List Frame}
    (h : Linked settled [] (⟨n, m.output :: pending⟩ :: below)) :
    Linked settled [] (⟨m, m.inputs⟩ :: ⟨n, pending⟩ :: below) := by
  obtain ⟨⟨dealt, hinputs, hdealt⟩, hbelow⟩ := h
  refine ⟨⟨[], rfl, fun x hx => absurd hx List.not_mem_nil⟩, ⟨dealt, ?_, hdealt⟩, hbelow⟩
  rw [hinputs, List.append_nil, List.append_assoc, List.singleton_append]

/-- The operation on top goes on when what it waits for is settled. -/
theorem release {x : Name} :
    ∀ {fs : List Frame}, Linked settled [x] fs → (∀ reader, settled reader x) → Linked settled [] fs
  | [], _, _ => trivial
  | f :: _, ⟨⟨dealt, hinputs, hdealt⟩, hbelow⟩, hsettled => by
      refine ⟨⟨dealt ++ [x], by rw [hinputs, List.append_nil], ?_⟩, hbelow⟩
      intro y hy
      rcases List.mem_append.1 hy with hy | hy
      · exact hdealt y hy
      · rw [List.mem_singleton.1 hy]
        exact hsettled f.node.output

/-- An operation on the stack reads the value of the one above it. -/
theorem reads_above {awaited : List Name} {top next : Frame} {below : List Frame}
    (h : Linked settled awaited (top :: next :: below)) (hnext : next.node ∈ g.nodes) :
    g.Reads next.node.output top.node.output := by
  obtain ⟨-, ⟨dealt, hinputs, -⟩, -⟩ := h
  refine ⟨next.node, hnext, rfl, ?_⟩
  rw [hinputs]
  simp

/-- Every operation on the stack depends on the one on top. -/
theorem reads_top :
    ∀ {awaited : List Name} {top : Frame} {below : List Frame},
      Linked settled awaited (top :: below) → (∀ f ∈ top :: below, f.node ∈ g.nodes) →
        ∀ f ∈ top :: below, Relation.ReflTransGen g.Reads f.node.output top.node.output := by
  intro awaited top below
  induction below generalizing awaited top with
  | nil =>
      intro _ _ f hf
      rw [List.mem_singleton.1 hf]
  | cons next below ih =>
      intro h hmem f hf
      rcases List.mem_cons.1 hf with rfl | hf
      · exact Relation.ReflTransGen.refl
      · have hreach := ih h.2 (fun f hf => hmem f (List.mem_cons_of_mem _ hf)) f hf
        exact hreach.tail (h.reads_above (hmem next (by simp)))

/-- From the top of the stack to the bottom, every value is read by the operation of the next. -/
theorem isChain :
    ∀ {awaited : List Name} {fs : List Frame}, Linked settled awaited fs →
      (∀ f ∈ fs, f.node ∈ g.nodes) →
        (fs.map (·.node.output)).IsChain fun x y => g.Reads y x
  | _, [], _, _ => .nil
  | _, [_], _, _ => .singleton _
  | _, _ :: next :: _, h, hmem =>
      .cons_cons (h.reads_above (hmem next (by simp)))
        (isChain h.2 fun f hf => hmem f (List.mem_cons_of_mem _ hf))

end Linked

/-- Whether an input needs no more work: it has been emitted, or its reader has dropped it. -/
def Settled (w : Walk) (reader x : Name) : Prop :=
  x ∈ w.finished ∨ (reader, x) ∈ w.dropped

/-- What operations wait for, on the stack and when they are emitted. -/
structure Waiting (w : Walk) : Prop where
  /-- Every operation on the stack waits for the one above it. -/
  linked : Linked w.Settled [] w.stack
  /-- The inputs of an emitted operation were emitted before it, or dropped. -/
  emitted : ∀ n rest, n :: rest <:+ w.emitted →
    ∀ x ∈ n.inputs, x ∈ rest.map Node.output ∨ (n.output, x) ∈ w.dropped

theorem Waiting.emit {w : Walk} {n : Node} {below : List Frame} (h : Waiting w)
    (htop : w.stack = ⟨n, []⟩ :: below) : Waiting (w.emit n below) := by
  have hlinked := h.linked
  rw [htop] at hlinked
  obtain ⟨⟨dealt, hinputs, hdealt⟩, hbelow⟩ := hlinked
  rw [List.append_nil, List.append_nil] at hinputs
  -- Nothing is pending on top, so all inputs of `n` are settled, and what is below goes on.
  constructor
  · refine (hbelow.mono fun reader x hx => ?_).release fun reader => .inl List.mem_cons_self
    exact hx.imp_left (List.mem_cons_of_mem _)
  · intro m rest hsuffix x hx
    rcases List.suffix_cons_iff.1 hsuffix with heq | hsuffix
    · cases heq
      exact hdealt x (hinputs ▸ hx)
    · exact h.emitted m rest hsuffix x hx

theorem Waiting.advance {w : Walk} {n : Node} {input : Name} {pending : List Name}
    {below : List Frame} (h : Waiting w) (htop : w.stack = ⟨n, input :: pending⟩ :: below)
    (hsettled : w.Settled n.output input) : Waiting (w.advance n pending below) :=
  ⟨Linked.advance (htop ▸ h.linked) hsettled, h.emitted⟩

theorem Waiting.drop {w : Walk} {n : Node} {input : Name} {pending : List Name}
    {below : List Frame} (h : Waiting w) (htop : w.stack = ⟨n, input :: pending⟩ :: below) :
    Waiting ((w.advance n pending below).drop n input) := by
  have hlinked := h.linked
  rw [htop] at hlinked
  constructor
  · refine Linked.advance (hlinked.mono fun reader x hx => ?_) (.inr List.mem_cons_self)
    exact hx.imp_right (List.mem_cons_of_mem _)
  · intro m rest hsuffix x hx
    exact (h.emitted m rest hsuffix x hx).imp_right (List.mem_cons_of_mem _)

theorem Waiting.enter {w : Walk} {n m : Node} {pending : List Name} {below : List Frame}
    (h : Waiting w) (htop : w.stack = ⟨n, m.output :: pending⟩ :: below) :
    Waiting ((w.advance n pending below).enter m) :=
  ⟨Linked.enter (htop ▸ h.linked), h.emitted⟩

theorem Linked.mem_inputs {settled : Name → Name → Prop} {n : Node} {input : Name}
    {pending : List Name} {below : List Frame}
    (h : Linked settled [] (⟨n, input :: pending⟩ :: below)) : input ∈ n.inputs := by
  obtain ⟨⟨dealt, hinputs, -⟩, -⟩ := h
  rw [hinputs]
  simp

/-- The input that the top operation deals with next is produced by some operation. -/
theorem exists_producer?_of_top {w : Walk} (hmarked : Marked g w) (hwaiting : Waiting w) {n : Node}
    {input : Name} {pending : List Name} {below : List Frame}
    (htop : w.stack = ⟨n, input :: pending⟩ :: below) : ∃ m, g.producer? input = some m := by
  have hn : n ∈ g.nodes := hmarked.stack_mem ⟨n, input :: pending⟩ (htop ▸ List.mem_cons_self)
  exact Graph.exists_producer? (g.closed n hn input (Linked.mem_inputs (htop ▸ hwaiting.linked)))

theorem producer?_ne_none_of_top {w : Walk} (hmarked : Marked g w) (hwaiting : Waiting w) {n : Node}
    {input : Name} {pending : List Name} {below : List Frame}
    (htop : w.stack = ⟨n, input :: pending⟩ :: below) : g.producer? input ≠ none := by
  obtain ⟨m, hm⟩ := exists_producer?_of_top hmarked hwaiting htop
  rw [hm]
  exact Option.some_ne_none m

theorem Reached.waiting {w : Walk} (h : Reached g policy w) : Waiting w := by
  induction h with
  | start =>
      exact ⟨trivial, fun n rest hsuffix => nomatch List.suffix_nil.1 hsuffix⟩
  | @enter w n _ hidle _ _ ih =>
      -- The stack was empty, so nothing waits for the operation that is entered.
      refine ⟨⟨⟨[], rfl, fun x hx => absurd hx List.not_mem_nil⟩, ?_⟩, ih.emitted⟩
      show Linked (w.enter n).Settled [n.output] w.stack
      rw [hidle]
      trivial
  | @step w w' hreached hstep ih =>
      cases move_of_step hstep with
      | emit htop => exact ih.emit htop
      | pass htop hdone => exact ih.advance htop (.inl ((hreached.marked.done_iff _).1 hdone))
      | drop htop _ _ => exact ih.drop htop
      | enter htop _ hproducer =>
          rw [← Graph.output_of_producer?_eq_some hproducer] at htop
          exact ih.enter htop
      | stray htop hproducer =>
          -- The graph is closed, so this move is never made.
          exact absurd hproducer (producer?_ne_none_of_top hreached.marked ih htop)

/-- In the order of emission, an input of an operation comes before it or was dropped. -/
theorem Waiting.before_or_dropped {w : Walk} (h : Waiting w) {before after : List Node} {n : Node}
    (hsplit : w.emitted.reverse = before ++ n :: after) {x : Name} (hx : x ∈ n.inputs) :
    x ∈ before.map Node.output ∨ (n.output, x) ∈ w.dropped := by
  -- The operations before the cut are those that were emitted before `n`.
  have hemitted : w.emitted = after.reverse ++ n :: before.reverse := by
    rw [← List.reverse_reverse w.emitted, hsplit, List.reverse_append, List.reverse_cons,
      List.append_assoc, List.singleton_append]
  have hbefore := h.emitted n before.reverse ⟨after.reverse, hemitted.symm⟩ x hx
  rwa [List.map_reverse, List.mem_reverse] at hbefore

/-! ## Cycles that are found -/

/-- An input that is underway depends on the operation on top of the stack, which reads it. -/
theorem Reached.reaches_top_of_underway {w : Walk} (h : Reached g policy w) {n : Node}
    {input : Name} {pending : List Name} {below : List Frame}
    (htop : w.stack = ⟨n, input :: pending⟩ :: below)
    (hunderway : w.marks.get? input = some .underway) :
    Relation.ReflTransGen g.Reads input n.output ∧ g.Reads n.output input := by
  have hlinked := h.waiting.linked
  have hmem := h.marked.stack_mem
  -- The input is the value of some operation on the stack, and all of these depend on the top.
  obtain ⟨f, hf, hout⟩ := List.mem_map.1 ((h.marked.underway_iff input).1 hunderway)
  rw [htop] at hlinked hmem hf
  constructor
  · rw [← hout]
    exact hlinked.reads_top hmem f hf
  · exact ⟨n, hmem _ List.mem_cons_self, rfl, hlinked.mem_inputs⟩

/-- **A cycle that a move finds is real**: some value of it depends on itself. -/
theorem exists_onCycle_of_step {w : Walk} {path : List Name} (h : Reached g policy w)
    (hstep : w.step g policy = .cycle path) : ∃ x, g.OnCycle x := by
  obtain ⟨-, n, input, pending, below, htop, hunderway, -⟩ := step_eq_cycle_iff.1 hstep
  obtain ⟨hup, hreads⟩ := h.reaches_top_of_underway htop hunderway
  exact ⟨input, Relation.TransGen.tail' hup hreads⟩

/-- A dependency that was dropped lies on a cycle, and its input has been met. -/
theorem Reached.of_dropped {w : Walk} (h : Reached g policy w) {reader x : Name}
    (hdropped : (reader, x) ∈ w.dropped) :
    w.Met x ∧ Relation.ReflTransGen g.Reads x reader := by
  induction h with
  | start => cases hdropped
  | enter _ _ _ _ ih =>
      obtain ⟨hmet, hreach⟩ := ih hdropped
      exact ⟨hmet.enter _, hreach⟩
  | @step w w' hreached hstep ih =>
      -- Only the move that drops an input adds a dependency; the input is underway then.
      have hold : (reader, x) ∈ w.dropped → w'.Met x ∧ Relation.ReflTransGen g.Reads x reader := by
        intro hmem
        obtain ⟨hmet, hreach⟩ := ih hmem
        exact ⟨hmet.step hstep, hreach⟩
      cases move_of_step hstep with
      | emit _ => exact hold hdropped
      | pass _ _ => exact hold hdropped
      | enter _ _ _ => exact hold hdropped
      | stray _ _ => exact hold hdropped
      | drop htop hunderway _ =>
          rcases List.mem_cons.1 hdropped with heq | hmem
          · cases heq
            exact ⟨met_of_mark hunderway, (hreached.reaches_top_of_underway htop hunderway).1⟩
          · exact hold hmem

/-- Where cycles are rejected, nothing is dropped. -/
theorem Reached.dropped_eq_nil {w : Walk} (h : Reached g .reject w) : w.dropped = [] := by
  induction h with
  | start => rfl
  | enter _ _ _ _ ih => exact ih
  | step _ hstep ih =>
      cases move_of_step hstep with
      | emit _ => exact ih
      | pass _ _ => exact ih
      | drop _ _ hpolicy => cases hpolicy
      | enter _ _ _ => exact ih
      | stray _ _ => exact ih

end Walk

end SlotPlan
