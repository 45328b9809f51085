import SlotPlan.Proofs.Graph.CyclePath
import SlotPlan.Proofs.Graph.Dropping

/-!
# What holds whenever the loop of a visit comes round

A visit is a loop: while the stack is not empty, one move is made. `Walk.Coherent` gathers what
relates marks, stack, cursors and output between two moves. It holds of every state that any sequence
of visits reaches (`Walk.Reached.coherent`), under both policies.

So the search for the frame of an input that is underway always finds it, and the path that is reported
is the stack from this frame upwards (`Walk.Coherent.exists_frame`); and no more operations are emitted
than there are (`Walk.Coherent.length_emitted_le`). `Walk.coherent_of_visits` says all of it about the
loop of any visit.
-/

set_option autoImplicit false

namespace SlotPlan

/-- The position of the input that an operation on the stack deals with next. Behind the last input
it is the number of inputs.

A frame does not hold this position: it holds the inputs that are still pending, and the position is
told from their number. So it says where the operation stands only if what is pending are the last of
its inputs, and then it is the inputs from this position on (`Frame.pending_eq_drop`). -/
def Frame.cursor (f : Frame) : Nat :=
  f.node.inputs.length - f.pending.length

namespace Frame

/-- A cursor stands behind the inputs that have been dealt with. -/
theorem cursor_eq {f : Frame} {dealt : List Name} (h : f.node.inputs = dealt ++ f.pending) :
    f.cursor = dealt.length := by
  rw [cursor, h, List.length_append, Nat.add_sub_cancel]

/-- This holds of any frame, whatever is pending, as the difference is cut off at zero. That the cursor
is the right one is `pending_eq_drop`. -/
theorem cursor_le (f : Frame) : f.cursor ≤ f.node.inputs.length :=
  Nat.sub_le _ _

/-- The pending inputs are those from the cursor on. -/
theorem pending_eq_drop {f : Frame} {dealt : List Name} (h : f.node.inputs = dealt ++ f.pending) :
    f.pending = f.node.inputs.drop f.cursor := by
  rw [cursor_eq h, h, List.drop_left]

end Frame

namespace Walk

variable {g : Graph} {policy : CyclePolicy} {w : Walk}

/-! ## Cursors on a stack -/

/-- Of the inputs of an operation on the stack, those that are pending come last. -/
theorem Linked.exists_dealt {settled : Name → Name → Prop} :
    ∀ {awaited : List Name} {fs : List Frame}, Linked settled awaited fs →
      ∀ f ∈ fs, ∃ dealt, f.node.inputs = dealt ++ f.pending
  | _, [], _, _, hf => absurd hf List.not_mem_nil
  | awaited, f :: below, ⟨⟨dealt, hinputs, _⟩, hbelow⟩, f', hf' => by
      rcases List.mem_cons.1 hf' with rfl | hf'
      · exact ⟨dealt ++ awaited, hinputs⟩
      · exact exists_dealt hbelow f' hf'

/-- The input just before the cursor of an operation on the stack is the one that it waits for. -/
theorem Linked.getElem?_cursor {settled : Name → Name → Prop} :
    ∀ {awaited : List Name} {fs : List Frame}, Linked settled awaited fs →
      ∀ {upper lower : Frame}, [upper, lower] <:+: fs →
        ∃ k, lower.cursor = k + 1 ∧ lower.node.inputs[k]? = some upper.node.output
  | _, [], _, _, _, h => by simp at h
  | _, f :: below, ⟨_, hbelow⟩, upper, lower, h => by
      rcases List.infix_cons_iff.1 h with hprefix | hinfix
      · -- The two frames are on top, and the lower one waits for the upper one.
        obtain ⟨rest, hrest⟩ := hprefix
        cases hrest
        obtain ⟨⟨dealt, hinputs, -⟩, -⟩ := hbelow
        refine ⟨dealt.length, ?_, ?_⟩
        · rw [Frame.cursor_eq hinputs, List.length_append, List.length_singleton]
        · rw [hinputs, List.append_assoc, List.getElem?_append_right (Nat.le_refl _), Nat.sub_self]
          rfl
      · exact getElem?_cursor hbelow hinfix

/-! ## Coherence -/

/-- The marks are those of the stack and of the emitted operations, which are there once each
(`Marked`), and every frame has come to where the one above it says. -/
structure Coherent (g : Graph) (w : Walk) : Prop extends Marked g w where
  /-- Every cursor stands among the inputs of its operation, or behind the last of them, and what is
  pending are the inputs from there on. It is the second half that a walk has to keep: the bound alone
  holds of any frame (`Frame.cursor_le`). -/
  cursor_le : ∀ f ∈ w.stack,
    f.cursor ≤ f.node.inputs.length ∧ f.pending = f.node.inputs.drop f.cursor
  /-- Every operation above another one produces the input just before the cursor of that one. -/
  producer_above : ∀ upper lower, [upper, lower] <:+: w.stack →
    ∃ k x, lower.cursor = k + 1 ∧ lower.node.inputs[k]? = some x ∧
      g.producer? x = some upper.node

theorem Reached.coherent (h : Reached g policy w) : Coherent g w where
  toMarked := h.marked
  cursor_le := by
    intro f hf
    obtain ⟨dealt, hdealt⟩ := h.waiting.linked.exists_dealt f hf
    exact ⟨f.cursor_le, Frame.pending_eq_drop hdealt⟩
  producer_above := by
    intro upper lower hinfix
    obtain ⟨k, hcursor, hget⟩ := h.waiting.linked.getElem?_cursor hinfix
    have hupper : upper ∈ w.stack := hinfix.subset List.mem_cons_self
    exact ⟨k, _, hcursor, hget, Graph.producer?_eq_some_iff.2 ⟨h.marked.stack_mem upper hupper, rfl⟩⟩

namespace Coherent

/-- No more operations are emitted than there are. -/
theorem length_emitted_le (h : Coherent g w) : w.emitted.length ≤ g.size :=
  (List.subperm_of_subset h.nodup_finished.of_map h.emitted_mem).length_le

/-- **The frame of an input that is underway is found on the stack**, from the bottom upwards, and the
cycle that is reported leads from there to the top. -/
theorem exists_frame (h : Coherent g w) {input : Name}
    (hunderway : w.marks.get? input = some .underway) :
    ∃ m k, g.producer? input = some m ∧ w.stack.reverse.findIdx? (·.node = m) = some k ∧
      cycleTo w.stack input = (w.stack.reverse.drop k).map (·.node.output) ++ [input] := by
  obtain ⟨f, hf, rfl⟩ := List.mem_map.1 ((h.underway_iff input).1 hunderway)
  obtain ⟨above, below, hstack⟩ := List.append_of_mem hf
  have hentered : w.stack.map (·.node.output) =
      above.map (·.node.output) ++ f.node.output :: below.map (·.node.output) := by
    rw [hstack, List.map_append, List.map_cons]
  -- No other frame on the stack holds the operation, neither above nor below.
  have hnodup : (w.stack.map (·.node.output)).Nodup := h.nodup_entered
  rw [hentered, List.nodup_append, List.nodup_cons] at hnodup
  obtain ⟨-, ⟨hnotbelow, -⟩, hdisjoint⟩ := hnodup
  have hnotabove : f.node.output ∉ above.map (·.node.output) := fun hmem =>
    hdisjoint _ hmem _ List.mem_cons_self rfl
  have hbelow : ∀ f' ∈ below.reverse, ¬ f'.node = f.node := fun f' hf' hnode =>
    hnotbelow (hnode ▸ List.mem_map_of_mem (List.mem_reverse.1 hf'))
  have hreverse : w.stack.reverse = below.reverse ++ f :: above.reverse := by
    rw [hstack]
    simp
  refine ⟨f.node, below.reverse.length, ?_, ?_, ?_⟩
  · exact Graph.producer?_eq_some_iff.2 ⟨h.stack_mem f hf, rfl⟩
  · rw [hreverse, List.findIdx?_append, List.findIdx?_eq_none_iff.2 (by simpa using hbelow),
      List.findIdx?_cons]
    simp
  · rw [cycleTo_eq_reverse hentered hnotabove, hreverse, List.drop_left]
    simp

end Coherent

/-- **Marks, stack, cursors and output agree whenever the loop of a visit comes round**, after any
visits that have not failed, under both policies. So an input that is underway is found on the stack,
and the number of operations that have not been emitted is never negative. Between two visits the stack
is empty. -/
theorem coherent_of_visits {xs : List Name} {w₀ : Walk}
    (hvisits : xs.foldlM (visit g policy) start = .ok w₀) :
    w₀.stack = [] ∧ Coherent g w₀ ∧ w₀.emitted.length ≤ g.size ∧
      ∀ x n, g.producer? x = some n → w₀.marks.get? x = none →
        visit g policy w₀ x = (w₀.enter n).run g policy ∧
        ∀ w, Along g policy (w₀.enter n) w →
          Coherent g w ∧ w.emitted.length ≤ g.size ∧
          ∀ input, w.marks.get? input = some .underway →
            ∃ m k, g.producer? input = some m ∧
              w.stack.reverse.findIdx? (·.node = m) = some k ∧
              cycleTo w.stack input =
                (w.stack.reverse.drop k).map (·.node.output) ++ [input] := by
  obtain ⟨hreached, hidle, -, -⟩ := foldlM_visit_ok Reached.start rfl hvisits
  refine ⟨hidle, hreached.coherent, hreached.coherent.length_emitted_le, ?_⟩
  intro x n hproducer hnew
  refine ⟨visit_of_new hnew hproducer, ?_⟩
  intro w halong
  have hcoherent := ((hreached.enter_producer hidle hnew hproducer).along halong).coherent
  exact ⟨hcoherent, hcoherent.length_emitted_le, fun _ hunderway => hcoherent.exists_frame hunderway⟩

/-- After the visit to `log`, the visit to `out` comes to the second input of `b`, whose operation is
the second one from the bottom of the stack. -/
theorem coherent_of_visits_of_cycle :
    let out : Node := ⟨"out", ["log", "a"]⟩
    let a : Node := ⟨"a", ["b", "b"]⟩
    let b : Node := ⟨"b", ["log", "a"]⟩
    let g : Graph := ⟨[out, a, b, ⟨"log", []⟩], by decide, by decide⟩
    let w₀ : Walk := { marks := .ofList [("log", .done)], emitted := [⟨"log", []⟩] }
    let w : Walk :=
      { marks := .ofList [("log", .done), ("out", .underway), ("a", .underway), ("b", .underway)]
        stack := [⟨b, ["a"]⟩, ⟨a, ["b"]⟩, ⟨out, []⟩]
        emitted := [⟨"log", []⟩] }
    ["log"].foldlM (visit g .reject) start = .ok w₀ ∧ Along g .reject (w₀.enter out) w ∧
      Coherent g w ∧ w.stack.reverse.findIdx? (·.node = a) = some 1 ∧
      w.step g .reject = .cycle ((w.stack.reverse.drop 1).map (·.node.output) ++ ["a"]) := by
  intro out a b g w₀ w
  have hvisits : ["log"].foldlM (visit g .reject) start = .ok w₀ := by decide +kernel
  have halong : Along g .reject (w₀.enter out) w :=
    .head rfl (.head rfl (.head rfl (.head rfl .refl)))
  obtain ⟨-, -, -, hloop⟩ := coherent_of_visits hvisits
  obtain ⟨-, hstates⟩ := hloop "out" out rfl rfl
  obtain ⟨hcoherent, -, hfound⟩ := hstates w halong
  obtain ⟨m, k, hproducer, hfind, hpath⟩ := hfound "a" rfl
  obtain rfl : a = m := Option.some.inj hproducer
  have hk : w.stack.reverse.findIdx? (·.node = a) = some 1 := by decide
  obtain rfl : 1 = k := Option.some.inj (hk.symm.trans hfind)
  refine ⟨hvisits, halong, hcoherent, hk, ?_⟩
  rw [← hpath]
  rfl

end Walk

end SlotPlan
