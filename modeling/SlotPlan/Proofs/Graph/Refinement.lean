import SlotPlan.Proofs.Graph.Rejecting
import SlotPlan.Proofs.Graph.Traversal
import SlotPlan.Proofs.Roster

/-!
# The walk does what the recursion says

The walk keeps on a stack what the recursive traversal would keep in its open calls: every frame
stands for a visit that has still to deal with its pending inputs and to emit its operation.
`Walk.resume` carries all these calls to their ends. No move changes what comes out
(`Walk.Reached.resume_eq_of_move`), so a walk that comes to rest has arrived at the result of the
recursion (`Walk.foldlM_visit_traversal`).

Sorting therefore lists the operations in the order in which the recursion emits them, and rejects
exactly the graphs on which the recursion meets a value that is marked and not emitted yet
(`Graph.sort_refines_traversal`).
-/

set_option autoImplicit false

namespace SlotPlan

namespace Walk

variable {g : Graph} {policy : CyclePolicy} {w w' : Walk}

/-! ## The traversal behind a walk -/

/-- The state of the traversal that a walk stands for. -/
def traversal (w : Walk) : Traversal where
  marked := w.marks.keys
  emitted := w.emitted
  reentered := w.dropped.map Prod.snd

theorem mem_marked_iff {x : Name} : x ∈ w.traversal.marked ↔ w.Met x :=
  Roster.mem_keys_iff

theorem traversal_enter {n : Node} (hnew : w.marks.get? n.output = none) :
    (w.enter n).traversal = w.traversal.mark n.output := by
  have hkey : n.output ∉ w.marks.keys := fun hkey => Roster.mem_keys_iff.1 hkey hnew
  simp only [traversal, Walk.enter, Traversal.mark, Roster.keys_put_of_not_mem _ hkey]

theorem traversal_emit {n : Node} (hmet : w.Met n.output) (below : List Frame) :
    (w.emit n below).traversal = w.traversal.emit n := by
  simp only [traversal, Walk.emit, Traversal.emit,
    Roster.keys_put_of_mem _ (Roster.mem_keys_iff.2 hmet)]

theorem meet_of_mem_finished {x : Name} (hx : x ∈ w.finished) :
    w.traversal.meet x = w.traversal :=
  if_pos hx

theorem meet_of_not_mem_finished {x : Name} (hx : x ∉ w.finished) :
    w.traversal.meet x = { w.traversal with reentered := x :: w.traversal.reentered } :=
  if_neg hx

/-- What is on the stack has not been emitted. -/
theorem Reached.not_mem_finished (h : Reached g policy w) {x : Name}
    (hunderway : w.marks.get? x = some .underway) : x ∉ w.finished := by
  rw [← h.marked.done_iff, hunderway]
  simp

/-! ## Open calls -/

/-- Carries the visits that a stack stands for to their ends, the one on top first. -/
def resume (g : Graph) : List Frame → Traversal → Traversal
  | [], t => t
  | f :: below, t => resume g below ((Traversal.visitAll g t f.pending).emit f.node)

theorem extends_resume (g : Graph) :
    ∀ (fs : List Frame) (t : Traversal), t.Extends (resume g fs t)
  | [], t => .refl t
  | f :: below, t =>
      ((t.extends_visitAll g f.pending).trans (Traversal.extends_emit _ f.node)).trans
        (extends_resume g below _)

/-- The top operation has its next input visited first. -/
theorem resume_cons_cons (n : Node) (input : Name) (pending : List Name) (below : List Frame)
    (t : Traversal) :
    resume g (⟨n, input :: pending⟩ :: below) t =
      resume g (⟨n, pending⟩ :: below) (Traversal.visit g t input) :=
  rfl

/-- **No move changes what the open calls lead to.** -/
theorem Reached.resume_eq_of_move (h : Reached g policy w) (hmove : Move g policy w w') :
    resume g w'.stack w'.traversal = resume g w.stack w.traversal := by
  cases hmove with
  | @emit n below htop =>
      have hunderway : w.marks.get? n.output = some .underway := by
        rw [h.marked.underway_iff, entered_eq_cons htop]
        exact List.mem_cons_self
      rw [htop, traversal_emit (met_of_mark hunderway)]
      rfl
  | @pass n input pending below htop hdone =>
      have hmarked := mem_marked_iff.2 (met_of_mark hdone)
      have hfinished := (h.marked.done_iff input).1 hdone
      rw [htop, resume_cons_cons, Traversal.visit_of_mem hmarked, meet_of_mem_finished hfinished]
      rfl
  | @drop n input pending below htop hunderway _ =>
      have hmarked := mem_marked_iff.2 (met_of_mark hunderway)
      have hopen := h.not_mem_finished hunderway
      rw [htop, resume_cons_cons, Traversal.visit_of_mem hmarked, meet_of_not_mem_finished hopen]
      rfl
  | @enter n m input pending below htop hnew hproducer =>
      -- The call for the input is opened: its marks are set, its inputs are pending.
      obtain rfl := Graph.output_of_producer?_eq_some hproducer
      have hnot : m.output ∉ w.traversal.marked := fun hmem => mem_marked_iff.1 hmem hnew
      have henter : ((w.advance n pending below).enter m).traversal = w.traversal.mark m.output :=
        traversal_enter (w := w.advance n pending below) hnew
      rw [htop, resume_cons_cons, Traversal.visit_of_producer? hnot hproducer, henter]
      rfl
  | stray htop hproducer =>
      -- The graph is closed, so this move is never made.
      exact absurd hproducer (producer?_ne_none_of_top h.marked h.waiting htop)

theorem Reached.resume_eq_of_along (h : Reached g policy w) (halong : Along g policy w w') :
    resume g w'.stack w'.traversal = resume g w.stack w.traversal := by
  induction halong with
  | refl => rfl
  | tail halong hstep ih =>
      rw [(h.along halong).resume_eq_of_move (move_of_step hstep), ih]

/-- At the beginning of a visit, one call is open, and it leads to what the recursion leads to. -/
theorem Reached.resume_eq_visit (h : Reached g policy w) (hidle : w.stack = []) {x : Name}
    {n : Node} (hproducer : g.producer? x = some n) (hnew : w.marks.get? x = none)
    (halong : Along g policy (w.enter n) w') :
    resume g w'.stack w'.traversal = Traversal.visit g w.traversal x := by
  rw [(h.enter_producer hidle hnew hproducer).resume_eq_of_along halong]
  obtain rfl := Graph.output_of_producer?_eq_some hproducer
  have hnot : n.output ∉ w.traversal.marked := fun hmem => mem_marked_iff.1 hmem hnew
  rw [Traversal.visit_of_producer? hnot hproducer, traversal_enter hnew, Walk.enter, hidle]
  rfl

/-! ## Visits -/

theorem Reached.traversal_of_visit (h : Reached g policy w) (hidle : w.stack = []) {x : Name}
    (hx : x ∈ g.outputs) (hvisit : Walk.visit g policy w x = .ok w') :
    w'.traversal = Traversal.visit g w.traversal x := by
  rcases visit_ok hvisit with ⟨rfl, hmet⟩ | ⟨n, hproducer, hnew, halong, hidle'⟩
  · have hfinished := h.mem_finished_of_met hidle (hmet hx)
    rw [Traversal.visit_of_mem (mem_marked_iff.2 (hmet hx)), meet_of_mem_finished hfinished]
  · rw [← h.resume_eq_visit hidle hproducer hnew halong, hidle']
    rfl

/-- **Visits that succeed arrive at the result of the recursion.** -/
theorem foldlM_visit_traversal {xs : List Name} :
    ∀ {w w' : Walk}, Reached g policy w → w.stack = [] → (∀ x ∈ xs, x ∈ g.outputs) →
      xs.foldlM (visit g policy) w = .ok w' →
        w'.traversal = Traversal.visitAll g w.traversal xs := by
  induction xs with
  | nil =>
      intro w w' _ _ _ h
      cases h
      rfl
  | cons x xs ih =>
      intro w w' hw hidle hxs h
      rw [List.foldlM_cons, bind_eq_ok_iff] at h
      obtain ⟨w₁, hvisit, h⟩ := h
      obtain ⟨hw₁, hidle₁, -, -⟩ := hw.visit hidle hvisit
      have hx := hxs x List.mem_cons_self
      rw [ih hw₁ hidle₁ (fun y hy => hxs y (List.mem_cons_of_mem _ hy)) h,
        hw.traversal_of_visit hidle hx hvisit]
      rfl

/-- A visit that fails does so at a value that the recursion meets as well. -/
theorem Reached.reentered_of_visit_error (h : Reached g policy w) (hidle : w.stack = []) {x : Name}
    {e : Error} (hvisit : Walk.visit g policy w x = .error e) :
    ∃ y, y ∈ (Traversal.visit g w.traversal x).reentered := by
  obtain ⟨m, w', path, hproducer, hnew, halong, hstep, -⟩ := visit_error hvisit
  have hreached' := (h.enter_producer hidle hnew hproducer).along halong
  obtain ⟨-, n, input, pending, below, htop, hunderway, -⟩ := step_eq_cycle_iff.1 hstep
  have hmarked := mem_marked_iff.2 (met_of_mark hunderway)
  have hopen := hreached'.not_mem_finished hunderway
  refine ⟨input, ?_⟩
  -- The next thing that the open calls do is to meet the input.
  rw [← h.resume_eq_visit hidle hproducer hnew halong, htop, resume_cons_cons,
    Traversal.visit_of_mem hmarked, meet_of_not_mem_finished hopen]
  exact (extends_resume g _ _).reentered.subset List.mem_cons_self

/-- **Visits only fail where the recursion meets a value that it has not emitted.** -/
theorem reentered_of_foldlM_visit_error {xs : List Name} {e : Error}
    (hxs : ∀ x ∈ xs, x ∈ g.outputs) (h : xs.foldlM (visit g policy) start = .error e) :
    (Traversal.visitAll g {} xs).reentered ≠ [] := by
  obtain ⟨before, x, after, w, rfl, hbefore, hvisit⟩ := foldlM_eq_error_iff.1 h
  obtain ⟨hreached, hidle, -, -⟩ := foldlM_visit_ok Reached.start rfl hbefore
  have htraversal : w.traversal = Traversal.visitAll g {} before :=
    foldlM_visit_traversal Reached.start rfl (fun y hy => hxs y (List.mem_append_left _ hy)) hbefore
  obtain ⟨y, hy⟩ := hreached.reentered_of_visit_error hidle hvisit
  -- What was noted in the visit of `x` is still noted at the end.
  have hextends := Traversal.extends_visitAll g (Traversal.visit g w.traversal x) after
  apply List.ne_nil_of_mem (a := y)
  rw [Traversal.visitAll_append_cons, ← htraversal]
  exact hextends.reentered.subset hy

end Walk

namespace Graph

/-- The operations of a sorted graph are those that the recursion emits from the roots. -/
theorem nodes_eq_of_sort {g : Graph} {policy : CyclePolicy} {s : Schedule}
    (h : g.sort policy = .ok s) :
    s.nodes = (Traversal.visitAll g {} g.roots).emitted.reverse := by
  have hroots : ∃ w, g.roots.foldlM (Walk.visit g policy) Walk.start = .ok w ∧
      s = ⟨w.emitted.reverse⟩ := by
    cases policy with
    | reject =>
        obtain ⟨w, hroots, -, hs⟩ := foldlM_roots_of_sort_reject h
        exact ⟨w, hroots, hs⟩
    | tolerate => exact sort_eq_ok_iff.1 h
  obtain ⟨w, hroots, rfl⟩ := hroots
  have htraversal := Walk.foldlM_visit_traversal Walk.Reached.start rfl
    (fun _ => mem_outputs_of_mem_roots) hroots
  exact congrArg (fun t : Traversal => t.emitted.reverse) htraversal

theorem sort_reject_error_iff {g : Graph} :
    (∃ e, g.sort .reject = .error e) ↔
      (Traversal.visitAll g {} (g.roots ++ g.outputs)).reentered ≠ [] := by
  have hstarts : ∀ x ∈ g.starts .reject, x ∈ g.outputs := fun x hx => mem_outputs_of_mem_starts hx
  constructor
  · rintro ⟨e, h⟩
    exact Walk.reentered_of_foldlM_visit_error hstarts (sort_eq_error_iff.1 h)
  · intro hreentered
    cases hsort : g.sort .reject with
    | error e => exact ⟨e, rfl⟩
    | ok s =>
        -- The walk that succeeds has dropped nothing, so the recursion noted nothing.
        obtain ⟨w, hvisits, -⟩ := sort_eq_ok_iff.1 hsort
        obtain ⟨hreached, -, -, -⟩ := Walk.foldlM_visit_ok Walk.Reached.start rfl hvisits
        have htraversal := Walk.foldlM_visit_traversal Walk.Reached.start rfl hstarts hvisits
        apply absurd _ hreentered
        calc (Traversal.visitAll g {} (g.roots ++ g.outputs)).reentered
            = w.traversal.reentered := congrArg Traversal.reentered htraversal.symm
          _ = w.dropped.map Prod.snd := rfl
          _ = [] := by rw [hreached.dropped_eq_nil, List.map_nil]

/-- **Sorting refines the recursive traversal.** Whatever the policy, a graph that is sorted is listed
in the order in which the recursion emits it from its roots. Where cycles are rejected, sorting fails
exactly when the recursion, from the roots and then from all values in the order of declaration,
meets a value that is marked and not emitted yet. -/
theorem sort_refines_traversal (g : Graph) :
    (∀ policy s, g.sort policy = .ok s →
      s.nodes = (Traversal.visitAll g {} g.roots).emitted.reverse) ∧
      ((∃ e, g.sort .reject = .error e) ↔
        (Traversal.visitAll g {} (g.roots ++ g.outputs)).reentered ≠ []) := by
  refine ⟨?_, sort_reject_error_iff⟩
  intro policy s hsort
  exact nodes_eq_of_sort hsort

/-- The recursion marks `out`, `a` and `b`, meets `a` again, and emits the three on its way back. -/
theorem sort_refines_traversal_of_cycle :
    let g : Graph := ⟨[⟨"out", ["a"]⟩, ⟨"a", ["b"]⟩, ⟨"b", ["a"]⟩], by decide, by decide⟩
    let s : Schedule := ⟨[⟨"b", ["a"]⟩, ⟨"a", ["b"]⟩, ⟨"out", ["a"]⟩]⟩
    g.sort .tolerate = .ok s ∧ s.nodes = (Traversal.visitAll g {} g.roots).emitted.reverse ∧
      (Traversal.visitAll g {} (g.roots ++ g.outputs)).reentered = ["a"] ∧
      ∃ e, g.sort .reject = .error e := by
  intro g s
  have hsort : g.sort .tolerate = .ok s := by decide +kernel
  have hmet : (Traversal.visitAll g {} (g.roots ++ g.outputs)).reentered = ["a"] := by cbv
  obtain ⟨horder, hfails⟩ := sort_refines_traversal g
  refine ⟨hsort, horder .tolerate s hsort, hmet, hfails.2 ?_⟩
  rw [hmet]
  exact List.cons_ne_nil _ _

end Graph

end SlotPlan
