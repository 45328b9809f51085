import SlotPlan.Proofs.Graph.Building
import SlotPlan.Proofs.Renaming.Values

/-!
# Building and sorting after renaming

Building a graph and sorting it compare names for equality only. So an embedding of the names carries
over from the operations to the graph or its fault (`Graph.build_rename`), and from a state of the
walk to the next one (`Walk.step_rename`), and by this to whole runs (`Walk.run_rename`) and to the
sorted schedule or the cycle that is reported (`Graph.sort_rename`).
-/

set_option autoImplicit false

namespace SlotPlan

variable (f : Name ↪ Name)

/-! ## Building -/

theorem mem_map_iff {x : Name} {xs : List Name} : f x ∈ xs.map f ↔ x ∈ xs :=
  List.mem_map_of_injective f.injective

/-- The first name that is missing is missing after renaming, and still is the first one. -/
theorem find?_missing_map (known xs : List Name) :
    (xs.map f).find? (· ∉ known.map f) = (xs.find? (· ∉ known)).map f := by
  have hmissing : (fun x => decide (x ∉ known.map f)) ∘ f = fun x => decide (x ∉ known) := by
    funext x
    simp only [Function.comp_apply, mem_map_iff]
  rw [List.find?_map, hmissing]

theorem firstRepeat?_map (xs : List Name) :
    ∀ seen : List Name, firstRepeat? (seen.map f) (xs.map f) = (firstRepeat? seen xs).map f := by
  induction xs with
  | nil => exact fun _ => rfl
  | cons x xs ih =>
      intro seen
      rw [List.map_cons, firstRepeat?, firstRepeat?]
      by_cases hx : x ∈ seen
      · rw [if_pos hx, if_pos ((mem_map_iff f).2 hx), Option.map_some]
      · rw [if_neg hx, if_neg (mt (mem_map_iff f).1 hx), ← ih, List.map_cons]

theorem firstDangling?_map (known : List Name) (nodes : List Node) :
    firstDangling? (known.map f) (nodes.map (Node.rename f)) =
      (firstDangling? known nodes).map (Prod.map f f) := by
  have hnode : (fun n : Node => (n.inputs.find? (· ∉ known.map f)).map fun x => (n.output, x)) ∘
      Node.rename f = Option.map (Prod.map f f) ∘
        fun n : Node => (n.inputs.find? (· ∉ known)).map fun x => (n.output, x) := by
    funext n
    simp only [Function.comp_apply, Node.rename, find?_missing_map, Option.map_map]
    rfl
  rw [firstDangling?, List.findSome?_map, hnode, ← List.map_findSome?, firstDangling?]

namespace Graph

/-- **Building the renamed operations gives the renamed graph**, or the same fault of renamed
values. -/
theorem build_rename (nodes : List Node) :
    build (nodes.map (Node.rename f)) = renameOutcome f (rename f) (build nodes) := by
  have hrepeat := firstRepeat?_map f (nodes.map Node.output) []
  have hdangling := firstDangling?_map f (nodes.map Node.output) nodes
  rw [← Node.map_output_rename] at hrepeat hdangling
  cases hbuild : build nodes with
  | ok g =>
      obtain rfl := build_eq_ok_iff.1 hbuild
      exact build_eq_ok_iff.2 rfl
  | error e =>
      apply build_eq_error_iff.2
      rcases build_eq_error_iff.1 hbuild with
        ⟨output, houtput, rfl⟩ | ⟨hnone, node, input, hinput, rfl⟩
      · rw [houtput] at hrepeat
        exact .inl ⟨f output, hrepeat, rfl⟩
      · rw [hnone] at hrepeat
        rw [hinput] at hdangling
        exact .inr ⟨hrepeat, f node, f input, hdangling, rfl⟩

variable (g : Graph)

theorem producer?_rename (x : Name) :
    (g.rename f).producer? (f x) = (g.producer? x).map (Node.rename f) := by
  have houtput : (fun n : Node => decide (n.output = f x)) ∘ Node.rename f =
      fun n => decide (n.output = x) := by
    funext n
    simp only [Function.comp_apply, Node.rename, f.apply_eq_iff_eq]
  rw [producer?, rename, List.find?_map, houtput, producer?]

theorem outputs_rename : (g.rename f).outputs = g.outputs.map f :=
  Node.map_output_rename f g.nodes

theorem isRead_rename (x : Name) : (g.rename f).isRead (f x) = g.isRead x := by
  rw [isRead, rename, List.any_map, isRead]
  congr 1
  funext n
  simp only [Function.comp_apply, Node.rename, mem_map_iff]

theorem roots_rename : (g.rename f).roots = g.roots.map f := by
  have hunread : (fun x => !(g.rename f).isRead x) ∘ f = fun x => !g.isRead x := by
    funext x
    rw [Function.comp_apply, isRead_rename]
  rw [roots, outputs_rename, List.filter_map, hunread, roots]

theorem starts_rename (policy : CyclePolicy) :
    (g.rename f).starts policy = (g.starts policy).map f := by
  cases policy with
  | reject => rw [starts, roots_rename, outputs_rename, starts, List.map_append]
  | tolerate => exact roots_rename f g

end Graph

/-! ## The walk -/

/-- Renames the operation, and the inputs that are left. -/
def Frame.rename (frame : Frame) : Frame where
  node := frame.node.rename f
  pending := frame.pending.map f

/-- Renames everything that the walk has met. -/
def Walk.rename (w : Walk) : Walk where
  marks := w.marks.rename f id
  stack := w.stack.map (Frame.rename f)
  emitted := w.emitted.map (Node.rename f)
  dropped := w.dropped.map (Prod.map f f)

/-- Renames the state in which the walk goes on, or the cycle that it has met. -/
def Progress.rename : Progress → Progress
  | onward w => onward (w.rename f)
  | idle => idle
  | cycle path => cycle (path.map f)

namespace Walk

variable (g : Graph) (policy : CyclePolicy)

theorem rename_enter (w : Walk) (n : Node) :
    (w.enter n).rename f = (w.rename f).enter (n.rename f) := by
  simp only [enter, rename, Roster.rename_put, List.map_cons]
  rfl

theorem rename_emit (w : Walk) (n : Node) (below : List Frame) :
    (w.emit n below).rename f = (w.rename f).emit (n.rename f) (below.map (Frame.rename f)) := by
  simp only [emit, rename, Roster.rename_put, List.map_cons]
  rfl

theorem cycleTo_rename (stack : List Frame) (input : Name) :
    cycleTo (stack.map (Frame.rename f)) (f input) = (cycleTo stack input).map f := by
  have houtputs : (stack.map (Frame.rename f)).map (·.node.output) =
      (stack.map (·.node.output)).map f := by
    rw [List.map_map, List.map_map]
    rfl
  have hother : (fun x => decide (x ≠ f input)) ∘ f = fun x => decide (x ≠ input) := by
    funext x
    simp only [Function.comp_apply, ne_eq, f.apply_eq_iff_eq]
  rw [cycleTo, houtputs, List.takeWhile_map, hother, cycleTo]
  simp only [List.map_append, List.map_cons, List.map_nil, List.map_reverse]

/-- **A move of the renamed walk is the renamed move.** -/
theorem step_rename (w : Walk) :
    (w.rename f).step (g.rename f) policy = (w.step g policy).rename f := by
  obtain ⟨marks, stack, emitted, dropped⟩ := w
  match stack with
  | [] => rfl
  | ⟨n, []⟩ :: below => exact congrArg Progress.onward (rename_emit f _ n below).symm
  | ⟨n, input :: pending⟩ :: below =>
      -- The next input has the mark that it had, and its operation is the renamed one.
      simp only [step, rename, List.map_cons, Frame.rename, Roster.get?_rename, g.producer?_rename]
      cases marks.get? input with
      | some mark =>
          cases mark with
          | done => rfl
          | underway =>
              cases policy with
              | reject =>
                  exact congrArg Progress.cycle (cycleTo_rename f (⟨n, _ :: _⟩ :: below) input)
              | tolerate => rfl
      | none =>
          cases g.producer? input with
          | some m =>
              have hentered := rename_enter f ⟨marks, ⟨n, pending⟩ :: below, emitted, dropped⟩ m
              exact congrArg Progress.onward hentered.symm
          | none => rfl

/-- **A run of the renamed walk ends as the run ended**, with the renamed state or the renamed
cycle. -/
theorem run_rename (w : Walk) :
    (w.rename f).run (g.rename f) policy = renameOutcome f (rename f) (w.run g policy) := by
  have hstep := step_rename f g policy
  induction w using run.induct g policy with
  | case1 w w' h ih =>
      rw [run, hstep, h, run, h]
      exact ih
  | case2 w h =>
      rw [run, hstep, h, run, h]
      rfl
  | case3 w path h =>
      rw [run, hstep, h, run, h]
      rfl

theorem visit_rename (w : Walk) (x : Name) :
    visit (g.rename f) policy (w.rename f) (f x) =
      renameOutcome f (rename f) (visit g policy w x) := by
  have hmark : (w.rename f).marks.get? (f x) = (w.marks.get? x).map id :=
    Roster.get?_rename f id w.marks x
  rw [visit, visit, g.producer?_rename, hmark]
  cases w.marks.get? x with
  | some mark => rfl
  | none =>
      cases g.producer? x with
      | some n =>
          simp only [Option.map_some, Option.map_none, ← rename_enter, run_rename]
      | none => rfl

/-- The visits of the renamed values are the renamed visits. -/
theorem foldlM_visit_rename (xs : List Name) :
    ∀ w : Walk, (xs.map f).foldlM (visit (g.rename f) policy) (w.rename f) =
      renameOutcome f (rename f) (xs.foldlM (visit g policy) w) := by
  induction xs with
  | nil => exact fun _ => rfl
  | cons x xs ih =>
      intro w
      rw [List.map_cons, List.foldlM_cons, List.foldlM_cons, visit_rename]
      exact renameOutcome_bind f ih

end Walk

/-- **The renamed graph is sorted into the renamed schedule**, or the cycle that is reported is
renamed. -/
theorem Graph.sort_rename (g : Graph) (policy : CyclePolicy) :
    (g.rename f).sort policy = renameOutcome f (Schedule.rename f) (g.sort policy) := by
  have hvisits := Walk.foldlM_visit_rename f g policy (g.starts policy) Walk.start
  rw [← starts_rename] at hvisits
  rw [sort, sort, sorting, sorting]
  show Except.map _ (((g.rename f).starts policy).foldlM _ (Walk.start.rename f) >>= _) = _
  rw [hvisits]
  cases (g.starts policy).foldlM (Walk.visit g policy) Walk.start with
  | ok w => exact congrArg (fun nodes => Except.ok (Schedule.mk nodes)) List.map_reverse.symm
  | error e => rfl

end SlotPlan
