import SlotPlan.Graph.Sorting
import SlotPlan.Proofs.Graph.Dependence
import SlotPlan.Proofs.Outcome

/-!
# The states that a walk reaches

`Walk.Move` says once what a move can do: emit the top operation, pass over an input, drop it, or
enter its operation (`Walk.move_of_step`, `Walk.step_eq_cycle_iff`, `Walk.step_eq_idle_iff`).

A walk that sorts a graph is a sequence of visits, and each visit a sequence of moves (`Walk.Along`)
that comes to an empty stack or to a cycle (`Walk.visit_ends`). `Walk.Reached` gathers the states
between two moves of such a walk, so that a property of all of them takes one induction.
`Walk.foldlM_visit_ok` and `Walk.foldlM_visit_error` lead back from the outcome of the visits to a
state that was reached.
-/

set_option autoImplicit false

namespace SlotPlan

namespace Walk

variable {g : Graph} {policy : CyclePolicy}

/-! ## Moves -/

/-- The walk in which the top operation waits for fewer inputs. -/
def advance (w : Walk) (n : Node) (pending : List Name) (below : List Frame) : Walk :=
  { w with stack := ⟨n, pending⟩ :: below }

/-- What one move of a walk can do. -/
inductive Move (g : Graph) (policy : CyclePolicy) (w : Walk) : Walk → Prop where
  /-- The top operation has no input left and is emitted. -/
  | emit {n : Node} {below : List Frame} (htop : w.stack = ⟨n, []⟩ :: below) :
      Move g policy w (w.emit n below)
  /-- The next input has been emitted and is passed over. -/
  | pass {n : Node} {input : Name} {pending : List Name} {below : List Frame}
      (htop : w.stack = ⟨n, input :: pending⟩ :: below)
      (hdone : w.marks.get? input = some .done) : Move g policy w (w.advance n pending below)
  /-- The next input closes a cycle and is dropped. -/
  | drop {n : Node} {input : Name} {pending : List Name} {below : List Frame}
      (htop : w.stack = ⟨n, input :: pending⟩ :: below)
      (hunderway : w.marks.get? input = some .underway) (hpolicy : policy = .tolerate) :
      Move g policy w ((w.advance n pending below).drop n input)
  /-- The operation of the next input has not been met and is entered. -/
  | enter {n m : Node} {input : Name} {pending : List Name} {below : List Frame}
      (htop : w.stack = ⟨n, input :: pending⟩ :: below)
      (hnew : w.marks.get? input = none) (hproducer : g.producer? input = some m) :
      Move g policy w ((w.advance n pending below).enter m)
  /-- Nothing produces the next input. -/
  | stray {n : Node} {input : Name} {pending : List Name} {below : List Frame}
      (htop : w.stack = ⟨n, input :: pending⟩ :: below)
      (hproducer : g.producer? input = none) : Move g policy w (w.advance n pending below)

theorem move_of_step {w w' : Walk} (h : w.step g policy = .onward w') : Move g policy w w' := by
  -- The cases are those of `step`: the stack first, then the mark of the next input.
  unfold step at h
  split at h
  · cases h
  · rename_i n below htop
    cases h
    exact .emit htop
  · rename_i n input pending below htop
    split at h
    · rename_i hdone
      cases h
      exact .pass htop hdone
    · rename_i hunderway
      split at h
      · cases h
      · cases h
        exact .drop htop hunderway rfl
    · rename_i hnew
      split at h
      · rename_i m hproducer
        cases h
        exact .enter htop hnew hproducer
      · rename_i hproducer
        cases h
        exact .stray htop hproducer

theorem step_eq_idle_iff {w : Walk} : w.step g policy = .idle ↔ w.stack = [] := by
  constructor
  · intro h
    unfold step at h
    split at h
    · assumption
    · cases h
    · split at h
      · cases h
      · split at h <;> cases h
      · split at h <;> cases h
  · intro h
    rw [step, h]

/-- A walk stops at a cycle when cycles are rejected and the next input is on the stack. -/
theorem step_eq_cycle_iff {w : Walk} {path : List Name} :
    w.step g policy = .cycle path ↔
      policy = .reject ∧ ∃ n input pending below, w.stack = ⟨n, input :: pending⟩ :: below ∧
        w.marks.get? input = some .underway ∧ path = cycleTo w.stack input := by
  constructor
  · intro h
    unfold step at h
    split at h
    · cases h
    · cases h
    · rename_i n input pending below htop
      split at h
      · cases h
      · rename_i hunderway
        split at h
        · cases h
          exact ⟨rfl, n, input, pending, below, htop, hunderway, rfl⟩
        · cases h
      · split at h <;> cases h
  · rintro ⟨rfl, n, input, pending, below, htop, hunderway, rfl⟩
    simp only [step, htop, hunderway]

/-! ## Values that have been met -/

/-- Whether the walk has entered the operation that produces a value. -/
def Met (w : Walk) (x : Name) : Prop :=
  w.marks.get? x ≠ none

theorem met_of_mark {w : Walk} {x : Name} {mark : Mark} (h : w.marks.get? x = some mark) :
    w.Met x := by
  show w.marks.get? x ≠ none
  rw [h]
  exact Option.some_ne_none mark

theorem met_put {marks : Roster Mark} {x key : Name} (mark : Mark) (h : marks.get? x ≠ none) :
    (marks.put key mark).get? x ≠ none := by
  by_cases hx : x = key
  · subst hx
    rw [Roster.get?_put_self]
    exact Option.some_ne_none mark
  · rw [Roster.get?_put_of_ne _ _ hx]
    exact h

theorem met_enter_self (w : Walk) (n : Node) : (w.enter n).Met n.output :=
  met_of_mark (Roster.get?_put_self _ _ _)

theorem Met.enter {w : Walk} {x : Name} (h : w.Met x) (n : Node) : (w.enter n).Met x :=
  met_put .underway h

/-- What has been met stays met. -/
theorem Met.step {w w' : Walk} {x : Name} (h : w.Met x) (hstep : w.step g policy = .onward w') :
    w'.Met x := by
  cases move_of_step hstep with
  | emit htop => exact met_put .done h
  | pass htop hdone => exact h
  | drop htop hunderway hpolicy => exact h
  | enter htop hnew hproducer => exact met_put .underway h
  | stray htop hproducer => exact h

/-! ## States that are reached -/

/-- The states of a walk between two moves, over any sequence of visits. -/
inductive Reached (g : Graph) (policy : CyclePolicy) : Walk → Prop where
  /-- Nothing has been visited. -/
  | start : Reached g policy start
  /-- A visit begins at an operation that has not been met. -/
  | enter {w : Walk} {n : Node} (h : Reached g policy w) (hidle : w.stack = [])
      (hn : n ∈ g.nodes) (hnew : w.marks.get? n.output = none) : Reached g policy (w.enter n)
  /-- A visit goes on. -/
  | step {w w' : Walk} (h : Reached g policy w) (hstep : w.step g policy = .onward w') :
      Reached g policy w'

/-- The moves of a walk, one after the other. -/
abbrev Along (g : Graph) (policy : CyclePolicy) : Walk → Walk → Prop :=
  Relation.ReflTransGen fun w w' => w.step g policy = .onward w'

theorem Reached.along {w w' : Walk} (h : Reached g policy w) (halong : Along g policy w w') :
    Reached g policy w' := by
  induction halong with
  | refl => exact h
  | tail _ hstep ih => exact ih.step hstep

theorem Met.along {w w' : Walk} {x : Name} (h : w.Met x) (halong : Along g policy w w') :
    w'.Met x := by
  induction halong with
  | refl => exact h
  | tail _ hstep ih => exact ih.step hstep

/-- A run ends at the first state that has no move left. -/
theorem run_ends (g : Graph) (policy : CyclePolicy) (w : Walk) :
    ∃ w', Along g policy w w' ∧
      ((w.run g policy = .ok w' ∧ w'.stack = []) ∨
        ∃ path, w.run g policy = .error (.cycleDetected path) ∧
          w'.step g policy = .cycle path) := by
  -- The induction follows the moves of `run`: it goes on, or it ends where it is.
  induction w using run.induct g policy with
  | case1 w w₁ hstep ih =>
      obtain ⟨w', halong, hend⟩ := ih
      refine ⟨w', Relation.ReflTransGen.head hstep halong, ?_⟩
      rw [run, hstep]
      exact hend
  | case2 w hstep =>
      refine ⟨w, Relation.ReflTransGen.refl, .inl ⟨?_, step_eq_idle_iff.1 hstep⟩⟩
      rw [run, hstep]
  | case3 w path hstep =>
      refine ⟨w, Relation.ReflTransGen.refl, .inr ⟨path, ?_, hstep⟩⟩
      rw [run, hstep]

/-! ## Visits -/

theorem visit_of_met {w : Walk} {x : Name} (h : w.Met x) : visit g policy w x = .ok w := by
  rw [visit]
  cases hx : w.marks.get? x with
  | some mark => rfl
  | none => exact absurd hx h

/-- A visit to a value that is new is a run from the state in which its operation was entered. -/
theorem visit_of_new {w : Walk} {x : Name} {n : Node} (hnew : w.marks.get? x = none)
    (hproducer : g.producer? x = some n) : visit g policy w x = (w.enter n).run g policy := by
  simp only [visit, hnew, hproducer]

/-- The state with which a visit begins has been reached. -/
theorem Reached.enter_producer {w : Walk} {x : Name} {n : Node} (h : Reached g policy w)
    (hidle : w.stack = []) (hnew : w.marks.get? x = none) (hproducer : g.producer? x = some n) :
    Reached g policy (w.enter n) := by
  refine h.enter hidle (Graph.mem_of_producer?_eq_some hproducer) ?_
  rw [Graph.output_of_producer?_eq_some hproducer]
  exact hnew

/-- A visit does nothing, or it enters the operation of its value and moves until the stack is empty
or a cycle is found. -/
theorem visit_ends (g : Graph) (policy : CyclePolicy) (w : Walk) (x : Name) :
    (visit g policy w x = .ok w ∧ (x ∈ g.outputs → w.Met x)) ∨
      ∃ n w', g.producer? x = some n ∧ w.marks.get? x = none ∧ Along g policy (w.enter n) w' ∧
        ((visit g policy w x = .ok w' ∧ w'.stack = []) ∨
          ∃ path, visit g policy w x = .error (.cycleDetected path) ∧
            w'.step g policy = .cycle path) := by
  by_cases hmet : w.Met x
  · exact .inl ⟨visit_of_met hmet, fun _ => hmet⟩
  · have hnew : w.marks.get? x = none := not_not.1 hmet
    cases hproducer : g.producer? x with
    | none =>
        -- The visit does nothing, and the value is not one of the graph.
        refine .inl ⟨by simp only [visit, hnew, hproducer], fun hx => ?_⟩
        obtain ⟨n, hn⟩ := Graph.exists_producer? hx
        rw [hproducer] at hn
        cases hn
    | some n =>
        obtain ⟨w', halong, hend⟩ := run_ends g policy (w.enter n)
        rw [← visit_of_new hnew hproducer] at hend
        exact .inr ⟨n, w', rfl, hnew, halong, hend⟩

theorem visit_ok {w w' : Walk} {x : Name} (h : visit g policy w x = .ok w') :
    (w' = w ∧ (x ∈ g.outputs → w.Met x)) ∨
      ∃ n, g.producer? x = some n ∧ w.marks.get? x = none ∧ Along g policy (w.enter n) w' ∧
        w'.stack = [] := by
  rcases visit_ends g policy w x with
    ⟨hok, hmet⟩ | ⟨n, w₁, hproducer, hnew, halong, ⟨hok, hidle⟩ | ⟨path, herror, -⟩⟩
  · rw [hok] at h
    cases h
    exact .inl ⟨rfl, hmet⟩
  · rw [hok] at h
    cases h
    exact .inr ⟨n, hproducer, hnew, halong, hidle⟩
  · rw [herror] at h
    cases h

theorem visit_error {w : Walk} {x : Name} {e : Error} (h : visit g policy w x = .error e) :
    ∃ n w' path, g.producer? x = some n ∧ w.marks.get? x = none ∧
      Along g policy (w.enter n) w' ∧ w'.step g policy = .cycle path ∧ e = .cycleDetected path := by
  rcases visit_ends g policy w x with
    ⟨hok, -⟩ | ⟨n, w₁, hproducer, hnew, halong, ⟨hok, -⟩ | ⟨path, herror, hstep⟩⟩
  · rw [hok] at h
    cases h
  · rw [hok] at h
    cases h
  · rw [herror] at h
    cases h
    exact ⟨n, w₁, path, hproducer, hnew, halong, hstep, rfl⟩

/-- A visit that succeeds leaves an empty stack, and its value has been met. -/
theorem Reached.visit {w w' : Walk} {x : Name} (hw : Reached g policy w) (hidle : w.stack = [])
    (h : visit g policy w x = .ok w') :
    Reached g policy w' ∧ w'.stack = [] ∧ (∀ y, w.Met y → w'.Met y) ∧
      (x ∈ g.outputs → w'.Met x) := by
  rcases visit_ok h with ⟨rfl, hmet⟩ | ⟨n, hproducer, hnew, halong, hidle'⟩
  · exact ⟨hw, hidle, fun _ hy => hy, hmet⟩
  · refine ⟨(hw.enter_producer hidle hnew hproducer).along halong, hidle',
      fun y hy => (hy.enter n).along halong, fun _ => ?_⟩
    have hentered := met_enter_self w n
    rw [Graph.output_of_producer?_eq_some hproducer] at hentered
    exact hentered.along halong

/-- Visits that succeed leave an empty stack, and every value they were asked for has been met. -/
theorem foldlM_visit_ok {xs : List Name} :
    ∀ {w w' : Walk}, Reached g policy w → w.stack = [] →
      xs.foldlM (visit g policy) w = .ok w' →
        Reached g policy w' ∧ w'.stack = [] ∧ (∀ y, w.Met y → w'.Met y) ∧
          ∀ x ∈ xs, x ∈ g.outputs → w'.Met x := by
  induction xs with
  | nil =>
      intro w w' hw hidle h
      cases h
      exact ⟨hw, hidle, fun _ hy => hy, fun x hx => absurd hx List.not_mem_nil⟩
  | cons x xs ih =>
      intro w w' hw hidle h
      rw [List.foldlM_cons, bind_eq_ok_iff] at h
      obtain ⟨w₁, hvisit, h⟩ := h
      obtain ⟨hw₁, hidle₁, hkeep₁, hmet₁⟩ := hw.visit hidle hvisit
      obtain ⟨hw', hidle', hkeep, hmet⟩ := ih hw₁ hidle₁ h
      refine ⟨hw', hidle', fun y hy => hkeep y (hkeep₁ y hy), fun y hy hout => ?_⟩
      rcases List.mem_cons.1 hy with rfl | hy
      · exact hkeep y (hmet₁ hout)
      · exact hmet y hy hout

/-- Visits that fail have reached a state whose next move finds a cycle. -/
theorem foldlM_visit_error {xs : List Name} {e : Error} {w : Walk} (hw : Reached g policy w)
    (hidle : w.stack = []) (h : xs.foldlM (visit g policy) w = .error e) :
    ∃ w' path, Reached g policy w' ∧ w'.step g policy = .cycle path ∧
      e = .cycleDetected path := by
  obtain ⟨before, x, after, w₁, -, hbefore, hvisit⟩ := foldlM_eq_error_iff.1 h
  obtain ⟨hw₁, hidle₁, -, -⟩ := foldlM_visit_ok hw hidle hbefore
  obtain ⟨n, w', path, hproducer, hnew, halong, hstep, he⟩ := visit_error hvisit
  exact ⟨w', path, (hw₁.enter_producer hidle₁ hnew hproducer).along halong, hstep, he⟩

end Walk

namespace Graph

variable {g : Graph} {policy : CyclePolicy}

/-- All visits are to values that are produced. -/
theorem mem_outputs_of_mem_starts {x : Name} (hx : x ∈ g.starts policy) : x ∈ g.outputs := by
  cases policy with
  | reject =>
      rcases List.mem_append.1 hx with hx | hx
      · exact mem_outputs_of_mem_roots hx
      · exact hx
  | tolerate => exact mem_outputs_of_mem_roots hx

/-- Sorting gives what a walk through all its starts has emitted and dropped, and counts the rest. -/
theorem sorting_eq_ok_iff {r : Sorting} :
    g.sorting policy = .ok r ↔
      ∃ w, (g.starts policy).foldlM (Walk.visit g policy) Walk.start = .ok w ∧
        r = ⟨⟨w.emitted.reverse⟩, w.dropped.reverse, g.size - w.emitted.length⟩ := by
  rw [sorting, bind_eq_ok_iff]
  constructor
  · rintro ⟨w, hvisits, h⟩
    cases h
    exact ⟨w, hvisits, rfl⟩
  · rintro ⟨w, hvisits, rfl⟩
    exact ⟨w, hvisits, rfl⟩

/-- A schedule of a graph lists what a walk through all its starts has emitted. -/
theorem sort_eq_ok_iff {s : Schedule} :
    g.sort policy = .ok s ↔
      ∃ w, (g.starts policy).foldlM (Walk.visit g policy) Walk.start = .ok w ∧
        s = ⟨w.emitted.reverse⟩ := by
  rw [sort, map_eq_ok_iff]
  constructor
  · rintro ⟨r, h, rfl⟩
    obtain ⟨w, hvisits, rfl⟩ := sorting_eq_ok_iff.1 h
    exact ⟨w, hvisits, rfl⟩
  · rintro ⟨w, hvisits, rfl⟩
    exact ⟨_, sorting_eq_ok_iff.2 ⟨w, hvisits, rfl⟩, rfl⟩

theorem sort_eq_error_iff {e : Error} :
    g.sort policy = .error e ↔
      (g.starts policy).foldlM (Walk.visit g policy) Walk.start = .error e := by
  rw [sort, map_eq_error_iff, sorting, bind_eq_error_iff]
  apply or_iff_left
  rintro ⟨w, -, h⟩
  cases h

end Graph

end SlotPlan
