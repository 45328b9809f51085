import SlotPlan.Config
import SlotPlan.Graph
import SlotPlan.Roster

/-!
# The depth-first walk over a graph

The walk enters an operation, goes through its inputs in the order of declaration, and emits the
operation once all of them have been dealt with. What is pending is kept on a stack of frames, so a
chain of any length can be followed.

An input whose operation is new is entered first; one that has been emitted is passed over; one
whose operation is still on the stack closes a cycle, which the policy either rejects or drops.

## What this module delivers

- `Walk`: marks, stack, emitted operations and dropped dependencies. `Walk.step` makes one move:
  it emits the top operation or deals with its next input.
- `Walk.work`: one for every operation and every input that is still to be dealt with. Every step
  lowers it (`work_lt_of_step`), on cyclic graphs too, which is why `Walk.run` ends.
- `Walk.visit`: emits a value and all it depends on, unless the walk has met it before.
-/

set_option autoImplicit false

namespace SlotPlan

/-- What the walk knows about a value it has met. A value without a mark has not been met. -/
inductive Mark where
  /-- The operation is on the stack: meeting it again closes a cycle. -/
  | underway
  /-- The operation has been emitted. -/
  | done
deriving DecidableEq

/-- An operation on the stack, with those of its inputs that have not been dealt with. -/
structure Frame where
  /-- The operation. -/
  node : Node
  /-- The inputs that are still to be dealt with: an end piece of the input list. -/
  pending : List Name
deriving DecidableEq

/-- The state of a walk. -/
structure Walk where
  /-- The marks of the values that have been met. -/
  marks : Roster Mark := .empty
  /-- The operations that have been entered and not emitted, the latest first. -/
  stack : List Frame := []
  /-- The operations that have been emitted, the latest first. -/
  emitted : List Node := []
  /-- The dependencies that were dropped, as reader and input, the latest first. -/
  dropped : List (Name × Name) := []
deriving DecidableEq

/-- The outcome of one move of a walk. -/
inductive Progress where
  /-- The walk goes on from here. -/
  | onward (w : Walk)
  /-- The stack is empty. -/
  | idle
  /-- The walk has met a cycle that it must not drop. -/
  | cycle (path : List Name)

namespace Walk

/-- The walk that has met nothing. -/
def start : Walk :=
  {}

/-- Puts an operation on the stack, with all its inputs to be dealt with. -/
def enter (w : Walk) (n : Node) : Walk :=
  { w with
    marks := w.marks.put n.output .underway
    stack := ⟨n, n.inputs⟩ :: w.stack }

/-- Takes the top operation, all of whose inputs have been dealt with, off the stack. -/
def emit (w : Walk) (n : Node) (below : List Frame) : Walk :=
  { w with
    marks := w.marks.put n.output .done
    stack := below
    emitted := n :: w.emitted }

/-- Drops the dependency of an operation on an input. -/
def drop (w : Walk) (n : Node) (input : Name) : Walk :=
  { w with dropped := (n.output, input) :: w.dropped }

/-- The cycle that an input closes when its operation is on the stack: from there up to the top,
and back. -/
def cycleTo (stack : List Frame) (input : Name) : List Name :=
  let above := (stack.map (·.node.output)).takeWhile (· ≠ input)
  input :: above.reverse ++ [input]

/-- One move: emits the top operation if it has no input left, else deals with its next input. -/
def step (g : Graph) (policy : CyclePolicy) (w : Walk) : Progress :=
  match w.stack with
  | [] => .idle
  | ⟨n, []⟩ :: below => .onward (w.emit n below)
  | ⟨n, input :: pending⟩ :: below =>
    let w' := { w with stack := ⟨n, pending⟩ :: below }
    match w.marks.get? input with
    | some .done => .onward w'
    | some .underway =>
      match policy with
      | .reject => .cycle (cycleTo w.stack input)
      | .tolerate => .onward (w'.drop n input)
    | none =>
      match g.producer? input with
      | some m => .onward (w'.enter m)
      | none => .onward w'

/-! ## Every move lowers the work that is left -/

/-- The cost of a list of operations: one for each, and one for each of its inputs. -/
def cost : List Node → Nat
  | [] => 0
  | n :: nodes => (n.inputs.length + 1) + cost nodes

/-- The operations among `nodes` that have not been met. -/
def unmet (marks : Roster Mark) (nodes : List Node) : List Node :=
  nodes.filter fun n => (marks.get? n.output).isNone

/-- The moves that the frames of a stack still ask for. -/
def load : List Frame → Nat
  | [] => 0
  | f :: below => (f.pending.length + 1) + load below

/-- The work that is left: what the stack asks for, and all that has not been met. -/
def work (g : Graph) (w : Walk) : Nat :=
  load w.stack + cost (unmet w.marks g.nodes)

theorem isNone_get?_of_put {marks : Roster Mark} {key other : Name} {mark : Mark}
    (h : ((marks.put key mark).get? other).isNone = true) : (marks.get? other).isNone = true := by
  by_cases hk : other = key
  · rw [hk, Roster.get?_put_self] at h
    cases h
  · rw [Roster.get?_put_of_ne marks mark hk] at h
    exact h

/-- A new mark adds nothing to what has not been met. -/
theorem cost_unmet_put_le (marks : Roster Mark) (key : Name) (mark : Mark) :
    ∀ nodes : List Node, cost (unmet (marks.put key mark) nodes) ≤ cost (unmet marks nodes)
  | [] => Nat.le_refl _
  | n :: nodes => by
      have ih := cost_unmet_put_le marks key mark nodes
      cases hput : ((marks.put key mark).get? n.output).isNone with
      | true =>
          have hold := isNone_get?_of_put hput
          simp only [unmet, List.filter_cons, hput, hold, cost, ite_true] at ih ⊢
          omega
      | false =>
          cases hold : (marks.get? n.output).isNone <;>
            simp only [unmet, List.filter_cons, hput, hold, cost, ite_true, Bool.false_eq_true,
              ite_false] at ih ⊢ <;>
            omega

/-- Marking an operation that had not been met takes its cost away. -/
theorem cost_unmet_put_add_le (marks : Roster Mark) (mark : Mark) {m : Node}
    (hnew : marks.get? m.output = none) :
    ∀ {nodes : List Node}, m ∈ nodes →
      cost (unmet (marks.put m.output mark) nodes) + (m.inputs.length + 1) ≤
        cost (unmet marks nodes)
  | n :: nodes, hmem => by
      rcases List.mem_cons.1 hmem with rfl | hmem
      · have hrest := cost_unmet_put_le marks m.output mark nodes
        simp only [unmet, List.filter_cons, Roster.get?_put_self, hnew, cost, Option.isNone_some,
          Option.isNone_none, ite_true, Bool.false_eq_true, ite_false] at hrest ⊢
        omega
      · have ih := cost_unmet_put_add_le marks mark hnew hmem
        cases hput : ((marks.put m.output mark).get? n.output).isNone with
        | true =>
            have hold := isNone_get?_of_put hput
            simp only [unmet, List.filter_cons, hput, hold, cost, ite_true] at ih ⊢
            omega
        | false =>
            cases hold : (marks.get? n.output).isNone <;>
              simp only [unmet, List.filter_cons, hput, hold, cost, ite_true, Bool.false_eq_true,
                ite_false] at ih ⊢ <;>
              omega

/-- Every move lowers the work that is left. -/
theorem work_lt_of_step {g : Graph} {policy : CyclePolicy} {w w' : Walk}
    (h : w.step g policy = .onward w') : w'.work g < w.work g := by
  unfold step at h
  split at h
  · cases h
  · rename_i n below hstack
    cases h
    have hle := cost_unmet_put_le w.marks n.output .done g.nodes
    simp only [work, emit, load, hstack, List.length_nil] at hle ⊢
    omega
  · rename_i n input pending below hstack
    have hload : load w.stack = load (⟨n, pending⟩ :: below) + 1 := by
      simp only [load, hstack, List.length_cons]
      omega
    split at h
    · cases h
      simp only [work]
      omega
    · split at h
      · cases h
      · cases h
        simp only [work, drop]
        omega
    · rename_i hnew
      split at h
      · rename_i m hm
        cases h
        have hle := cost_unmet_put_add_le w.marks .underway
          (by rw [Graph.output_of_producer?_eq_some hm]; exact hnew)
          (Graph.mem_of_producer?_eq_some hm)
        simp only [work, enter, load] at hle hload ⊢
        omega
      · cases h
        simp only [work]
        omega

/-! ## Runs -/

/-- Moves until the stack is empty. -/
def run (g : Graph) (policy : CyclePolicy) (w : Walk) : Except Error Walk :=
  match _h : w.step g policy with
  | .onward w' => w'.run g policy
  | .idle => .ok w
  | .cycle path => .error (.cycleDetected path)
termination_by w.work g
decreasing_by exact work_lt_of_step _h

/-- Emits a value and everything it depends on, unless the walk has met it before. -/
def visit (g : Graph) (policy : CyclePolicy) (w : Walk) (value : Name) : Except Error Walk :=
  match w.marks.get? value with
  | some _ => .ok w
  | none =>
    match g.producer? value with
    | some n => (w.enter n).run g policy
    | none => .ok w

end Walk

end SlotPlan
