import SlotPlan.Proofs.Graph.WalkInvariant

/-!
# How far visits go

A walk goes from an operation to its inputs only. So everything on the stack during the visit of a
value is the value itself or something it depends on, and so is everything that the visit emits
(`Walk.Reached.reaches_of_along`). Visits of several values emit what these depend on and nothing
else (`Walk.foldlM_visit_reaches`).
-/

set_option autoImplicit false

namespace SlotPlan

namespace Walk

variable {g : Graph} {policy : CyclePolicy}

/-- The moves from a state whose stack depends on a value only bring in what depends on that value
as well. -/
theorem Reached.reaches_of_along {w w' : Walk} (h : Reached g policy w)
    (halong : Along g policy w w') {x : Name}
    (hstack : ∀ y ∈ w.entered, Relation.ReflTransGen g.Reads x y) :
    (∀ y ∈ w'.entered, Relation.ReflTransGen g.Reads x y) ∧
      ∀ y ∈ w'.finished, y ∈ w.finished ∨ Relation.ReflTransGen g.Reads x y := by
  induction halong with
  | refl => exact ⟨hstack, fun y hy => .inl hy⟩
  | @tail v v' halong hstep ih =>
      obtain ⟨hentered, hfinished⟩ := ih
      have hv := h.along halong
      cases move_of_step hstep with
      | @emit n below htop =>
          -- The value on top of the stack is now among the emitted ones.
          rw [entered_eq_cons htop] at hentered
          refine ⟨fun y hy => hentered y (List.mem_cons_of_mem _ hy), ?_⟩
          intro y hy
          rcases List.mem_cons.1 hy with rfl | hy
          · exact .inr (hentered n.output List.mem_cons_self)
          · exact hfinished y hy
      | pass htop _ => exact ⟨entered_advance htop ▸ hentered, hfinished⟩
      | drop htop _ _ => exact ⟨entered_advance htop ▸ hentered, hfinished⟩
      | stray htop _ => exact ⟨entered_advance htop ▸ hentered, hfinished⟩
      | @enter n m input pending below htop _ hproducer =>
          refine ⟨?_, hfinished⟩
          intro y hy
          rw [entered_enter, entered_advance htop, Graph.output_of_producer?_eq_some hproducer,
            List.mem_cons] at hy
          rcases hy with rfl | hy
          · -- The operation that is entered produces an input of the one on top.
            have hn := hv.marked.stack_mem ⟨n, y :: pending⟩ (htop ▸ List.mem_cons_self)
            have hinput : y ∈ n.inputs := Linked.mem_inputs (htop ▸ hv.waiting.linked)
            have hreach := hentered n.output (entered_eq_cons htop ▸ List.mem_cons_self)
            exact hreach.tail ⟨n, hn, rfl, hinput⟩
          · exact hentered y hy

/-- During the visit of a value, the stack holds nothing but what the value depends on. -/
theorem Reached.reaches_of_visit {w w' : Walk} (h : Reached g policy w) (hidle : w.stack = [])
    {x : Name} {n : Node} (hproducer : g.producer? x = some n) (hnew : w.marks.get? x = none)
    (halong : Along g policy (w.enter n) w') :
    (∀ y ∈ w'.entered, Relation.ReflTransGen g.Reads x y) ∧
      ∀ y ∈ w'.finished, y ∈ w.finished ∨ Relation.ReflTransGen g.Reads x y := by
  apply (h.enter_producer hidle hnew hproducer).reaches_of_along halong
  intro y hy
  rw [entered_enter, entered, hidle, List.map_nil, List.mem_singleton,
    Graph.output_of_producer?_eq_some hproducer] at hy
  rw [hy]

/-- **Visits emit nothing but what the visited values depend on.** -/
theorem foldlM_visit_reaches {xs : List Name} :
    ∀ {w w' : Walk}, Reached g policy w → w.stack = [] →
      xs.foldlM (visit g policy) w = .ok w' →
        ∀ y ∈ w'.finished, y ∈ w.finished ∨ ∃ x ∈ xs, Relation.ReflTransGen g.Reads x y := by
  induction xs with
  | nil =>
      intro w w' _ _ h y hy
      cases h
      exact .inl hy
  | cons x xs ih =>
      intro w w' hw hidle h y hy
      rw [List.foldlM_cons, bind_eq_ok_iff] at h
      obtain ⟨w₁, hvisit, h⟩ := h
      obtain ⟨hw₁, hidle₁, -, -⟩ := hw.visit hidle hvisit
      rcases ih hw₁ hidle₁ h y hy with hy | ⟨x', hx', hreach⟩
      · rcases visit_ok hvisit with ⟨rfl, -⟩ | ⟨n, hproducer, hnew, halong, -⟩
        · exact .inl hy
        · rcases (hw.reaches_of_visit hidle hproducer hnew halong).2 y hy with hy | hreach
          · exact .inl hy
          · exact .inr ⟨x, List.mem_cons_self, hreach⟩
      · exact .inr ⟨x', List.mem_cons_of_mem _ hx', hreach⟩

end Walk

end SlotPlan
