import SlotPlan.Error

/-!
# Graphs: closed sets of operations

A graph is a list of operations in which every value is produced once and every value that is read
is produced. Cycles are allowed here; ordering decides about them.

## What this module delivers

- `Graph`: the operations in the order of declaration, with the proofs of both facts.
- `Graph.build`: the graph of a list of operations, or the first thing that is wrong with it. A
  value that is produced twice is reported before any value that is missing.
- `Graph.producer?`, `Graph.inputsOf?`, `Graph.contains`, `Graph.indexOf?`: what the graph says about
  a value.
- `Graph.roots`: the values that nothing reads, which are the results of the computation.
-/

set_option autoImplicit false

namespace SlotPlan

/-! ## The two faults of a list of operations -/

/-- The first name of a list that is among `seen` or has occurred before it in the list. -/
def firstRepeat? (seen : List Name) : List Name → Option Name
  | [] => none
  | x :: xs => if x ∈ seen then some x else firstRepeat? (x :: seen) xs

/-- There is no repeat exactly when the names differ from one another and from those seen. -/
theorem firstRepeat?_eq_none_iff :
    ∀ {xs seen : List Name},
      firstRepeat? seen xs = none ↔ xs.Nodup ∧ ∀ x ∈ xs, x ∉ seen
  | [], seen => by simp [firstRepeat?]
  | x :: xs, seen => by
      by_cases hx : x ∈ seen
      · simp [firstRepeat?, hx]
      · simp only [firstRepeat?, hx, ite_false, firstRepeat?_eq_none_iff, List.nodup_cons,
          List.mem_cons, not_or, forall_eq_or_imp, not_false_eq_true, true_and]
        constructor
        · rintro ⟨hnodup, hseen⟩
          exact ⟨⟨fun hmem => (hseen x hmem).1 rfl, hnodup⟩, fun y hy => (hseen y hy).2⟩
        · rintro ⟨⟨hmem, hnodup⟩, hseen⟩
          exact ⟨hnodup, fun y hy => ⟨fun hyx => hmem (hyx ▸ hy), hseen y hy⟩⟩

/-- The first operation that reads a value which is not among `known`, with the first such value. -/
def firstDangling? (known : List Name) (nodes : List Node) : Option (Name × Name) :=
  nodes.findSome? fun n => (n.inputs.find? (· ∉ known)).map fun x => (n.output, x)

/-- Nothing dangles exactly when every input of every operation is known. -/
theorem firstDangling?_eq_none_iff {known : List Name} {nodes : List Node} :
    firstDangling? known nodes = none ↔ ∀ n ∈ nodes, ∀ x ∈ n.inputs, x ∈ known := by
  simp [firstDangling?]

/-! ## Graphs -/

/-- A closed set of operations, in the order of declaration. -/
structure Graph where
  /-- The operations, in the order in which they are declared. -/
  nodes : List Node
  /-- No value is produced twice. -/
  nodup_outputs : (nodes.map Node.output).Nodup
  /-- Every value that is read is produced. -/
  closed : ∀ n ∈ nodes, ∀ x ∈ n.inputs, x ∈ nodes.map Node.output
deriving DecidableEq

namespace Graph

/-- The graph of a list of operations. It fails with the first output that occurred before, or, if
there is none, with the first input in the order of declaration that nothing produces. -/
def build (nodes : List Node) : Except Error Graph :=
  match hrepeat : firstRepeat? [] (nodes.map Node.output) with
  | some output => .error (.duplicateOutput output)
  | none =>
    match hdangling : firstDangling? (nodes.map Node.output) nodes with
    | some (node, input) => .error (.unknownInput node input)
    | none =>
      .ok ⟨nodes, (firstRepeat?_eq_none_iff.1 hrepeat).1, firstDangling?_eq_none_iff.1 hdangling⟩

/-- The values that the graph produces, in the order of declaration. -/
def outputs (g : Graph) : List Name :=
  g.nodes.map Node.output

/-- The number of operations. -/
def size (g : Graph) : Nat :=
  g.nodes.length

/-- The operation that produces a value. -/
def producer? (g : Graph) (value : Name) : Option Node :=
  g.nodes.find? (·.output = value)

/-- The inputs of the operation that produces a value. -/
def inputsOf? (g : Graph) (value : Name) : Option (List Name) :=
  (g.producer? value).map Node.inputs

/-- Whether some operation produces a value. -/
def contains (g : Graph) (value : Name) : Bool :=
  (g.producer? value).isSome

/-- The place at which the operation that produces a value is declared. -/
def indexOf? (g : Graph) (value : Name) : Option Nat :=
  g.nodes.findIdx? (·.output = value)

/-- Whether some operation reads a value. -/
def isRead (g : Graph) (value : Name) : Bool :=
  g.nodes.any (value ∈ ·.inputs)

/-- The values that no operation reads, in the order of declaration. -/
def roots (g : Graph) : List Name :=
  g.outputs.filter fun value => !g.isRead value

theorem mem_of_producer?_eq_some {g : Graph} {value : Name} {n : Node}
    (h : g.producer? value = some n) : n ∈ g.nodes :=
  List.mem_of_find?_eq_some h

theorem output_of_producer?_eq_some {g : Graph} {value : Name} {n : Node}
    (h : g.producer? value = some n) : n.output = value := by
  simpa using List.find?_some h

end Graph

end SlotPlan
