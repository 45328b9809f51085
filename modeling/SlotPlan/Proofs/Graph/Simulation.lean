import SlotPlan.Proofs.Graph.Reached

/-!
# Walks side by side

Two walks over different graphs are compared by a relation between their states. The second one
simulates the first (`Walk.Simulates`) if it keeps the relation: to each move of the first walk it
answers with moves of its own, perhaps none; it is at rest when the first walk is; and where that
one finds a cycle it finds the same. The whole of a run or of a visit then agrees
(`Walk.Simulates.run`, `Walk.Simulates.visit`): both walks come to rest in related states, or both
report the same cycle.
-/

set_option autoImplicit false

namespace SlotPlan

namespace Walk

variable {g g' : Graph} {policy : CyclePolicy} {w w' : Walk}

/-! ## Making moves -/

section

variable {n m : Node} {input : Name} {pending : List Name} {below : List Frame}

theorem step_of_nil (htop : w.stack = ⟨n, []⟩ :: below) :
    w.step g policy = .onward (w.emit n below) := by
  simp only [step, htop]

theorem step_of_done (htop : w.stack = ⟨n, input :: pending⟩ :: below)
    (hdone : w.marks.get? input = some .done) :
    w.step g policy = .onward (w.advance n pending below) := by
  simp only [step, htop, hdone, advance]

theorem step_of_underway (htop : w.stack = ⟨n, input :: pending⟩ :: below)
    (hunderway : w.marks.get? input = some .underway) :
    w.step g .tolerate = .onward ((w.advance n pending below).drop n input) := by
  simp only [step, htop, hunderway, advance]

theorem step_of_new (htop : w.stack = ⟨n, input :: pending⟩ :: below)
    (hnew : w.marks.get? input = none) (hproducer : g.producer? input = some m) :
    w.step g policy = .onward ((w.advance n pending below).enter m) := by
  simp only [step, htop, hnew, hproducer, advance]

end

theorem run_of_step (h : w.step g policy = .onward w') : w.run g policy = w'.run g policy := by
  rw [run, h]

/-- A run goes through the states that the moves lead to. -/
theorem run_of_along (h : Along g policy w w') : w.run g policy = w'.run g policy := by
  induction h with
  | refl => rfl
  | tail _ hstep ih => rw [ih, run_of_step hstep]

/-! ## Simulation -/

/-- The second walk keeps up with the first one. -/
structure Simulates (g g' : Graph) (policy : CyclePolicy) (R : Walk → Walk → Prop) : Prop where
  /-- A move of the first walk is answered by moves of the second one. -/
  onward : ∀ {w w' v : Walk}, Reached g policy w → R w w' → w.step g policy = .onward v →
    ∃ v', Along g' policy w' v' ∧ R v v'
  /-- Both walks are at rest at the same time. -/
  idle : ∀ {w w' : Walk}, R w w' → w.stack = [] → w'.stack = []
  /-- The second walk finds the cycles that the first one finds. -/
  cycle : ∀ {w w' : Walk} {path : List Name}, Reached g policy w → R w w' →
    w.step g policy = .cycle path → w'.step g' policy = .cycle path

/-- The first walk has come to rest, in a state that is related to that of the second one. -/
structure AtRest (g : Graph) (policy : CyclePolicy) (R : Walk → Walk → Prop) (w w' : Walk) :
    Prop where
  /-- The state of the first walk has been reached. -/
  reached : Reached g policy w
  /-- Its stack is empty. -/
  idle : w.stack = []
  /-- The states are related. -/
  related : R w w'

namespace Simulates

variable {R : Walk → Walk → Prop}

/-- **Runs agree**: both end in related states, or both end at the same cycle. -/
theorem run (h : Simulates g g' policy R) (hreached : Reached g policy w) (hR : R w w') :
    Agree (AtRest g policy R) (w.run g policy) (w'.run g' policy) := by
  -- The induction follows the first walk; the second one may stand still meanwhile.
  induction w using run.induct g policy generalizing w' with
  | case1 w v hstep ih =>
      obtain ⟨v', halong, hv⟩ := h.onward hreached hR hstep
      rw [run_of_step hstep, run_of_along halong]
      exact ih (hreached.step hstep) hv
  | case2 w hstep =>
      have hidle := step_eq_idle_iff.1 hstep
      have hstep' : w'.step g' policy = .idle := step_eq_idle_iff.2 (h.idle hR hidle)
      rw [Walk.run, hstep, Walk.run, hstep']
      exact .ok ⟨hreached, hidle, hR⟩
  | case3 w path hstep =>
      rw [Walk.run, hstep, Walk.run, h.cycle hreached hR hstep]
      exact .error _

/-- **Visits agree** if both walks know the value equally well, and are still related after entering
its operation. -/
theorem visit (h : Simulates g g' policy R) {x : Name} {n n' : Node}
    (hrest : AtRest g policy R w w') (hmark : w'.marks.get? x = w.marks.get? x)
    (hproducer : g.producer? x = some n) (hproducer' : g'.producer? x = some n')
    (henter : w.marks.get? x = none → R (w.enter n) (w'.enter n')) :
    Agree (AtRest g policy R) (visit g policy w x) (visit g' policy w' x) := by
  by_cases hmet : w.Met x
  · have hmet' : w'.Met x := by
      rw [Met, hmark]
      exact hmet
    rw [visit_of_met hmet, visit_of_met hmet']
    exact .ok hrest
  · have hnew : w.marks.get? x = none := not_not.1 hmet
    rw [visit_of_new hnew hproducer, visit_of_new (hmark.trans hnew) hproducer']
    exact h.run (hrest.reached.enter_producer hrest.idle hnew hproducer) (henter hnew)

end Simulates

end Walk

end SlotPlan
