import SlotPlan.Proofs.Graph.Building
import SlotPlan.Proofs.Graph.Policies
import SlotPlan.Proofs.Graph.Simulation

/-!
# Sorting graphs that have nothing to do with each other

Two graphs that produce different values can be declared as one, the first one before the second
one. A walk through the whole graph then does in each part what a walk through that part does: it
meets the same marks and the same operations there, and leaves the other part alone
(`Walk.simulates_tracks`).

So the tolerating policy lists the first part and then the second one
(`Graph.sort_tolerate_append`), and so does the rejecting policy where there are no cycles. The
rejecting policy goes through the roots of both parts before it goes through all values of the first
one (`Graph.visitParts`). If one part only has a cycle, this does not matter, and its cycle is
reported (`Graph.sort_components`).
-/

set_option autoImplicit false

namespace SlotPlan

/-! ## Parts of a graph -/

namespace Graph

section

variable {g g' : Graph} {x y : Name}

/-- A value of a part has the same operation in the whole. -/
theorem producer?_of_subset (hpart : g.nodes ⊆ g'.nodes) (hx : x ∈ g.outputs) :
    g'.producer? x = g.producer? x := by
  obtain ⟨n, hn⟩ := exists_producer? hx
  obtain ⟨hmem, hout⟩ := producer?_eq_some_iff.1 hn
  rw [hn]
  exact producer?_eq_some_iff.2 ⟨hpart hmem, hout⟩

/-- A value of a part depends on the same values in the whole. -/
theorem reads_iff_of_subset (hpart : g.nodes ⊆ g'.nodes) (hx : x ∈ g.outputs) :
    g'.Reads x y ↔ g.Reads x y := by
  constructor
  · rintro ⟨n, hn, rfl, hy⟩
    obtain ⟨m, hm, hout⟩ := List.mem_map.1 hx
    obtain rfl := eq_of_output_eq (hpart hm) hn hout
    exact ⟨m, hm, rfl, hy⟩
  · rintro ⟨n, hn, hout, hy⟩
    exact ⟨n, hpart hn, hout, hy⟩

/-- A value of a part is on a cycle in the whole exactly if it is on one in the part. -/
theorem onCycle_iff_of_subset (hpart : g.nodes ⊆ g'.nodes) (hx : x ∈ g.outputs) :
    g'.OnCycle x ↔ g.OnCycle x := by
  -- A path that starts in the part does not leave it.
  have hstay : ∀ y, Relation.TransGen g'.Reads x y → Relation.TransGen g.Reads x y := by
    intro y h
    induction h with
    | single h => exact .single ((reads_iff_of_subset hpart hx).1 h)
    | tail _ h ih =>
        obtain ⟨z, -, hlast⟩ := Relation.TransGen.tail'_iff.1 ih
        exact ih.tail ((reads_iff_of_subset hpart (mem_outputs_of_reads hlast).2).1 h)
  constructor
  · exact hstay x
  · have hreads : g.Reads ≤ g'.Reads := by
      rintro y z ⟨n, hn, hyz⟩
      exact ⟨n, hpart hn, hyz⟩
    exact Relation.TransGen.mono hreads x x

end

end Graph

/-! ## The walk in a part -/

namespace Walk

variable {g g' : Graph} {policy : CyclePolicy} {b b' w w' : Walk}

/-- The first walk goes through a part, the second one through the whole, and they set out from `b`
and `b'`. They do the same in the part; outside it nothing happens. -/
structure Tracks (g : Graph) (b b' w w' : Walk) : Prop where
  /-- The values of the part have the same marks. -/
  inside : ∀ x ∈ g.outputs, w'.marks.get? x = w.marks.get? x
  /-- The other values keep their marks. -/
  outside : ∀ x, x ∉ g.outputs → w'.marks.get? x = b'.marks.get? x
  /-- The same operations are on the stack. -/
  stack : w'.stack = w.stack
  /-- The same operations have been emitted since. -/
  emitted : ∃ block, w.emitted = block ++ b.emitted ∧ w'.emitted = block ++ b'.emitted

namespace Tracks

variable {n : Node}

theorem setOut (hmarks : ∀ x ∈ g.outputs, b'.marks.get? x = b.marks.get? x)
    (hstack : b'.stack = b.stack) : Tracks g b b' b b' :=
  ⟨hmarks, fun _ _ => rfl, hstack, [], rfl, rfl⟩

theorem put_inside (h : Tracks g b b' w w') {key : Name} (mark : Mark) :
    ∀ x ∈ g.outputs, (w'.marks.put key mark).get? x = (w.marks.put key mark).get? x := by
  intro x hx
  by_cases hkey : x = key
  · subst hkey
    rw [Roster.get?_put_self, Roster.get?_put_self]
  · rw [Roster.get?_put_of_ne _ _ hkey, Roster.get?_put_of_ne _ _ hkey, h.inside x hx]

theorem put_outside (h : Tracks g b b' w w') {key : Name} (hkey : key ∈ g.outputs) (mark : Mark) :
    ∀ x, x ∉ g.outputs → (w'.marks.put key mark).get? x = b'.marks.get? x := by
  intro x hx
  have hne : x ≠ key := fun heq => hx (heq ▸ hkey)
  rw [Roster.get?_put_of_ne _ _ hne, h.outside x hx]

theorem emit (h : Tracks g b b' w w') (hn : n ∈ g.nodes) (below : List Frame) :
    Tracks g b b' (w.emit n below) (w'.emit n below) where
  inside := h.put_inside .done
  outside := h.put_outside (Graph.mem_outputs_of_mem hn) .done
  stack := rfl
  emitted := by
    obtain ⟨block, hw, hw'⟩ := h.emitted
    exact ⟨n :: block, congrArg (n :: ·) hw, congrArg (n :: ·) hw'⟩

theorem advance (h : Tracks g b b' w w') (n : Node) (pending : List Name) (below : List Frame) :
    Tracks g b b' (w.advance n pending below) (w'.advance n pending below) :=
  ⟨h.inside, h.outside, rfl, h.emitted⟩

theorem drop (h : Tracks g b b' w w') (n : Node) (input : Name) :
    Tracks g b b' (w.drop n input) (w'.drop n input) :=
  ⟨h.inside, h.outside, h.stack, h.emitted⟩

theorem enter (h : Tracks g b b' w w') (hn : n ∈ g.nodes) :
    Tracks g b b' (w.enter n) (w'.enter n) :=
  ⟨h.put_inside .underway, h.put_outside (Graph.mem_outputs_of_mem hn) .underway,
    congrArg (Frame.mk n n.inputs :: ·) h.stack, h.emitted⟩

/-- The next input belongs to the part, so it has the same mark. -/
theorem mark_input (h : Tracks g b b' w w') (hreached : Reached g policy w) {input : Name}
    {pending : List Name} {below : List Frame} (htop : w.stack = ⟨n, input :: pending⟩ :: below) :
    w'.marks.get? input = w.marks.get? input := by
  obtain ⟨m, hm⟩ := exists_producer?_of_top hreached.marked hreached.waiting htop
  exact h.inside input (Graph.mem_outputs_of_producer? hm)

end Tracks

/-- **A walk through the whole makes the moves of the walk through the part.** -/
theorem simulates_tracks (hpart : g.nodes ⊆ g'.nodes) (b b' : Walk) :
    Simulates g g' policy (Tracks g b b') where
  onward := by
    intro w w' v hreached h hstep
    cases move_of_step hstep with
    | @emit n below htop =>
        have hn : n ∈ g.nodes := hreached.marked.stack_mem ⟨n, []⟩ (htop ▸ List.mem_cons_self)
        exact ⟨_, .single (step_of_nil (h.stack.trans htop)), h.emit hn below⟩
    | @pass n input pending below htop hdone =>
        rw [← h.mark_input hreached htop] at hdone
        exact ⟨_, .single (step_of_done (h.stack.trans htop) hdone), h.advance n pending below⟩
    | @drop n input pending below htop hunderway hpolicy =>
        subst hpolicy
        rw [← h.mark_input hreached htop] at hunderway
        exact ⟨_, .single (step_of_underway (h.stack.trans htop) hunderway),
          (h.advance n pending below).drop n input⟩
    | @enter n m input pending below htop hnew hproducer =>
        rw [← h.mark_input hreached htop] at hnew
        have hm := Graph.mem_of_producer?_eq_some hproducer
        rw [← Graph.producer?_of_subset hpart (Graph.mem_outputs_of_producer? hproducer)]
          at hproducer
        exact ⟨_, .single (step_of_new (h.stack.trans htop) hnew hproducer),
          (h.advance n pending below).enter hm⟩
    | @stray n input pending below htop hproducer =>
        -- The part is closed, so this move is never made.
        exact absurd hproducer (producer?_ne_none_of_top hreached.marked hreached.waiting htop)
  idle := fun h hidle => h.stack.trans hidle
  cycle := by
    intro w w' path hreached h hstep
    obtain ⟨rfl, n, input, pending, below, htop, hunderway, rfl⟩ := step_eq_cycle_iff.1 hstep
    rw [← h.mark_input hreached htop] at hunderway
    rw [← h.stack] at htop ⊢
    exact step_eq_cycle_iff.2 ⟨rfl, n, input, pending, below, htop, hunderway, rfl⟩

/-- A walk through the whole that is at rest knows the values of a part as well as a walk through
that part. -/
structure Joins (g : Graph) (policy : CyclePolicy) (w w' : Walk) : Prop where
  /-- The state of the walk through the part has been reached. -/
  reached : Reached g policy w
  /-- Both walks are at rest. -/
  idle : w.stack = [] ∧ w'.stack = []
  /-- The values of the part have the same marks. -/
  marks : ∀ x ∈ g.outputs, w'.marks.get? x = w.marks.get? x

namespace Joins

theorem start (g : Graph) (policy : CyclePolicy) : Joins g policy start start :=
  ⟨.start, ⟨rfl, rfl⟩, fun _ _ => rfl⟩

/-- **Visits to values of the part agree.** -/
theorem visits (h : Joins g policy w w') (hpart : g.nodes ⊆ g'.nodes) {xs : List Name}
    (hxs : ∀ x ∈ xs, x ∈ g.outputs) :
    Agree (AtRest g policy (Tracks g w w')) (xs.foldlM (visit g policy) w)
      (xs.foldlM (visit g' policy) w') := by
  apply Agree.foldlM
  · intro v v' x hx hrest
    have hmem := hxs x hx
    obtain ⟨n, hproducer⟩ := Graph.exists_producer? hmem
    have hproducer' := (Graph.producer?_of_subset hpart hmem).trans hproducer
    exact (simulates_tracks hpart w w').visit hrest (hrest.related.inside x hmem) hproducer
      hproducer' fun _ => hrest.related.enter (Graph.mem_of_producer?_eq_some hproducer)
  · exact ⟨h.reached, h.idle.1, .setOut h.marks (h.idle.2.trans h.idle.1.symm)⟩

/-- After visits to values of the part. -/
theorem inside (h : AtRest g policy (Tracks g b b') w w') : Joins g policy w w' :=
  ⟨h.reached, ⟨h.idle, h.related.stack.trans h.idle⟩, h.related.inside⟩

/-- Visits to values of another part change nothing. -/
theorem outside {g₂ : Graph} (h : Joins g₂ policy b b') (hdisjoint : g.outputs.Disjoint g₂.outputs)
    {c : Walk} (hrest : AtRest g policy (Tracks g c b') w w') : Joins g₂ policy b w' := by
  refine ⟨h.reached, ⟨h.idle.1, hrest.related.stack.trans hrest.idle⟩, ?_⟩
  intro x hx
  rw [hrest.related.outside x fun hmem => hdisjoint hmem hx]
  exact h.marks x hx

end Joins

end Walk

/-! ## Two parts -/

namespace Graph

open Walk

variable {g₁ g₂ g : Graph} {s₁ s₂ : Schedule}

/-- Different values, each with its operation, are produced by the two graphs together. -/
theorem exists_build_append (hdisjoint : g₁.outputs.Disjoint g₂.outputs) :
    ∃ g, build (g₁.nodes ++ g₂.nodes) = .ok g ∧ g.nodes = g₁.nodes ++ g₂.nodes := by
  have hnodup : ((g₁.nodes ++ g₂.nodes).map Node.output).Nodup := by
    rw [List.map_append]
    exact g₁.nodup_outputs.append g₂.nodup_outputs hdisjoint
  have hclosed : ∀ n ∈ g₁.nodes ++ g₂.nodes, ∀ x ∈ n.inputs,
      x ∈ (g₁.nodes ++ g₂.nodes).map Node.output := by
    intro n hn x hx
    rw [List.map_append, List.mem_append]
    rcases List.mem_append.1 hn with hn | hn
    · exact .inl (g₁.closed n hn x hx)
    · exact .inr (g₂.closed n hn x hx)
  exact ⟨⟨g₁.nodes ++ g₂.nodes, hnodup, hclosed⟩, build_eq_ok_iff.2 rfl, rfl⟩

theorem outputs_append (hnodes : g.nodes = g₁.nodes ++ g₂.nodes) :
    g.outputs = g₁.outputs ++ g₂.outputs := by
  rw [outputs, hnodes, List.map_append, outputs, outputs]

/-- The roots are those of both parts. -/
theorem roots_append (hdisjoint : g₁.outputs.Disjoint g₂.outputs)
    (hnodes : g.nodes = g₁.nodes ++ g₂.nodes) : g.roots = g₁.roots ++ g₂.roots := by
  have hread : ∀ x, g.isRead x = (g₁.isRead x || g₂.isRead x) := by
    intro x
    rw [isRead, hnodes, List.any_append, isRead, isRead]
  -- An operation of one part does not read a value of the other one.
  have hunread₁ : ∀ x ∈ g₂.outputs, g₁.isRead x = false := by
    intro x hx
    rw [← Bool.not_eq_true, isRead_iff]
    rintro ⟨n, hn, hxn⟩
    exact hdisjoint (g₁.closed n hn x hxn) hx
  have hunread₂ : ∀ x ∈ g₁.outputs, g₂.isRead x = false := by
    intro x hx
    rw [← Bool.not_eq_true, isRead_iff]
    rintro ⟨n, hn, hxn⟩
    exact hdisjoint hx (g₂.closed n hn x hxn)
  rw [roots, outputs_append hnodes, List.filter_append, roots, roots]
  congr 1
  · apply List.filter_congr
    intro x hx
    rw [hread, hunread₂ x hx, Bool.or_false]
  · apply List.filter_congr
    intro x hx
    rw [hread, hunread₁ x hx, Bool.false_or]

/-- The whole is acyclic exactly if both parts are. -/
theorem acyclic_append_iff (hnodes : g.nodes = g₁.nodes ++ g₂.nodes) :
    g.Acyclic ↔ g₁.Acyclic ∧ g₂.Acyclic := by
  have hpart₁ : g₁.nodes ⊆ g.nodes := hnodes ▸ List.subset_append_left _ _
  have hpart₂ : g₂.nodes ⊆ g.nodes := hnodes ▸ List.subset_append_right _ _
  constructor
  · intro h
    constructor
    · intro x hx
      exact h x ((onCycle_iff_of_subset hpart₁ (mem_outputs_of_onCycle hx)).2 hx)
    · intro x hx
      exact h x ((onCycle_iff_of_subset hpart₂ (mem_outputs_of_onCycle hx)).2 hx)
  · rintro ⟨h₁, h₂⟩ x hx
    have hmem := mem_outputs_of_onCycle hx
    rw [outputs_append hnodes, List.mem_append] at hmem
    rcases hmem with hmem | hmem
    · exact h₁ x ((onCycle_iff_of_subset hpart₁ hmem).1 hx)
    · exact h₂ x ((onCycle_iff_of_subset hpart₂ hmem).1 hx)

/-! ## Sorting the whole -/

/-- **The tolerating policy lists the first part and then the second one.** -/
theorem sort_tolerate_append (hdisjoint : g₁.outputs.Disjoint g₂.outputs)
    (hnodes : g.nodes = g₁.nodes ++ g₂.nodes) (h₁ : g₁.sort .tolerate = .ok s₁)
    (h₂ : g₂.sort .tolerate = .ok s₂) : g.sort .tolerate = .ok ⟨s₁.nodes ++ s₂.nodes⟩ := by
  have hpart₁ : g₁.nodes ⊆ g.nodes := hnodes ▸ List.subset_append_left _ _
  have hpart₂ : g₂.nodes ⊆ g.nodes := hnodes ▸ List.subset_append_right _ _
  obtain ⟨w₁, hvisits₁, rfl⟩ := sort_eq_ok_iff.1 h₁
  obtain ⟨w₂, hvisits₂, rfl⟩ := sort_eq_ok_iff.1 h₂
  rw [starts] at hvisits₁ hvisits₂
  have hagree₁ := (Joins.start g₁ .tolerate).visits hpart₁ fun _ => mem_outputs_of_mem_roots
  rw [hvisits₁] at hagree₁
  obtain ⟨w, hvisits, hrest⟩ := hagree₁.exists_ok
  -- The walk through the second part sets out where the one through the first part came to rest.
  have hagree₂ := ((Joins.start g₂ .tolerate).outside hdisjoint hrest).visits hpart₂ fun _ =>
    mem_outputs_of_mem_roots
  rw [hvisits₂] at hagree₂
  obtain ⟨w', hvisits', hrest'⟩ := hagree₂.exists_ok
  refine sort_eq_ok_iff.2 ⟨w', ?_, ?_⟩
  · rw [starts, roots_append hdisjoint hnodes, List.foldlM_append, bind_eq_ok_iff]
    exact ⟨w, hvisits, hvisits'⟩
  · obtain ⟨block, hw₁, hw⟩ := hrest.related.emitted
    obtain ⟨block', hw₂, hw'⟩ := hrest'.related.emitted
    rw [hw', hw, List.reverse_append, hw₁, hw₂]
    simp only [Walk.start, List.append_nil]

/-- **The rejecting policy gives that schedule if it sorts both parts.** -/
theorem sort_reject_append (hdisjoint : g₁.outputs.Disjoint g₂.outputs)
    (hnodes : g.nodes = g₁.nodes ++ g₂.nodes) (h₁ : g₁.sort .reject = .ok s₁)
    (h₂ : g₂.sort .reject = .ok s₂) : g.sort .reject = .ok ⟨s₁.nodes ++ s₂.nodes⟩ := by
  have htolerate := sort_tolerate_append hdisjoint hnodes (sort_tolerate_of_sort_reject h₁)
    (sort_tolerate_of_sort_reject h₂)
  obtain ⟨s, hsort⟩ := exists_sort_reject_of_acyclic
    ((acyclic_append_iff hnodes).2 ⟨acyclic_of_sort_reject h₁, acyclic_of_sort_reject h₂⟩)
  rw [hsort, eq_of_sort hsort htolerate]

/-! ## Cycles that are reported -/

/-- What the rejecting policy does with two parts: it goes through the roots of both, and then
through all values of both. -/
def visitParts (g₁ g₂ : Graph) : Except Error (Walk × Walk) := do
  let w₁ ← g₁.roots.foldlM (visit g₁ .reject) .start
  let w₂ ← g₂.roots.foldlM (visit g₂ .reject) .start
  let w₁' ← g₁.outputs.foldlM (visit g₁ .reject) w₁
  let w₂' ← g₂.outputs.foldlM (visit g₂ .reject) w₂
  return (w₁', w₂')

/-- **The walk through the whole agrees with the walks through its parts**, taken in turns. -/
theorem agree_visitParts (hdisjoint : g₁.outputs.Disjoint g₂.outputs)
    (hnodes : g.nodes = g₁.nodes ++ g₂.nodes) :
    Agree (fun p w => Joins g₁ .reject p.1 w ∧ Joins g₂ .reject p.2 w) (visitParts g₁ g₂)
      ((g.starts .reject).foldlM (visit g .reject) .start) := by
  have hpart₁ : g₁.nodes ⊆ g.nodes := hnodes ▸ List.subset_append_left _ _
  have hpart₂ : g₂.nodes ⊆ g.nodes := hnodes ▸ List.subset_append_right _ _
  simp only [starts, roots_append hdisjoint hnodes, outputs_append hnodes, List.foldlM_append,
    bind_assoc]
  -- Each of the four rounds leaves the part that it does not go through as it was.
  refine ((Joins.start g₁ .reject).visits hpart₁ fun _ => mem_outputs_of_mem_roots).bind
    fun w₁ v₁ hrest₁ => ?_
  have hv₁ : Joins g₂ .reject .start v₁ := (Joins.start g₂ .reject).outside hdisjoint hrest₁
  refine (hv₁.visits hpart₂ fun _ => mem_outputs_of_mem_roots).bind fun w₂ v₂ hrest₂ => ?_
  have hv₂ : Joins g₁ .reject w₁ v₂ := (Joins.inside hrest₁).outside hdisjoint.symm hrest₂
  refine (hv₂.visits hpart₁ fun _ => id).bind fun w₁' v₃ hrest₃ => ?_
  have hv₃ : Joins g₂ .reject w₂ v₃ := (Joins.inside hrest₂).outside hdisjoint hrest₃
  rw [← bind_pure (g₂.outputs.foldlM _ v₃)]
  refine (hv₃.visits hpart₂ fun _ => id).bind fun w₂' v₄ hrest₄ => ?_
  exact .ok ⟨(Joins.inside hrest₃).outside hdisjoint.symm hrest₄, .inside hrest₄⟩

theorem sort_reject_of_visitParts (hdisjoint : g₁.outputs.Disjoint g₂.outputs)
    (hnodes : g.nodes = g₁.nodes ++ g₂.nodes) {e : Error} (h : visitParts g₁ g₂ = .error e) :
    g.sort .reject = .error e := by
  have hagree := agree_visitParts hdisjoint hnodes
  rw [h] at hagree
  exact sort_eq_error_iff.2 hagree.eq_error

theorem visitParts_of_left {e : Error} (h₁ : g₁.sort .reject = .error e)
    (h₂ : g₂.sort .reject = .ok s₂) : visitParts g₁ g₂ = .error e := by
  obtain ⟨w₂, hroots₂, -, -⟩ := foldlM_roots_of_sort_reject h₂
  rcases sort_reject_eq_error_iff.1 h₁ with hroots₁ | ⟨w₁, hroots₁, houtputs₁⟩
  · exact bind_eq_error_iff.2 (.inl hroots₁)
  · refine bind_eq_error_iff.2 (.inr ⟨w₁, hroots₁, ?_⟩)
    refine bind_eq_error_iff.2 (.inr ⟨w₂, hroots₂, ?_⟩)
    exact bind_eq_error_iff.2 (.inl houtputs₁)

theorem visitParts_of_right {e : Error} (h₁ : g₁.sort .reject = .ok s₁)
    (h₂ : g₂.sort .reject = .error e) : visitParts g₁ g₂ = .error e := by
  obtain ⟨w₁, hroots₁, houtputs₁, -⟩ := foldlM_roots_of_sort_reject h₁
  refine bind_eq_error_iff.2 (.inr ⟨w₁, hroots₁, ?_⟩)
  rcases sort_reject_eq_error_iff.1 h₂ with hroots₂ | ⟨w₂, hroots₂, houtputs₂⟩
  · exact bind_eq_error_iff.2 (.inl hroots₂)
  · refine bind_eq_error_iff.2 (.inr ⟨w₂, hroots₂, ?_⟩)
    refine bind_eq_error_iff.2 (.inr ⟨w₁, houtputs₁, ?_⟩)
    exact bind_eq_error_iff.2 (.inl houtputs₂)

/-- **Independent components are sorted independently.** If two graphs have no value in common, then
their operations, those of the first one before those of the second one, make a graph. The
tolerating policy sorts it into the schedule of the first graph followed by that of the second one.
The rejecting policy sorts it exactly if it sorts both graphs, and into the same schedule; if it
fails for one of them only, it reports the same error. -/
theorem sort_components (hdisjoint : g₁.outputs.Disjoint g₂.outputs) :
    ∃ g, build (g₁.nodes ++ g₂.nodes) = .ok g ∧
      (∃ s₁ s₂, g₁.sort .tolerate = .ok s₁ ∧ g₂.sort .tolerate = .ok s₂ ∧
        g.sort .tolerate = .ok ⟨s₁.nodes ++ s₂.nodes⟩) ∧
      ((∃ s, g.sort .reject = .ok s) ↔
        (∃ s₁, g₁.sort .reject = .ok s₁) ∧ ∃ s₂, g₂.sort .reject = .ok s₂) ∧
      (∀ s₁ s₂, g₁.sort .reject = .ok s₁ → g₂.sort .reject = .ok s₂ →
        g.sort .reject = .ok ⟨s₁.nodes ++ s₂.nodes⟩) ∧
      (∀ e s₂, g₁.sort .reject = .error e → g₂.sort .reject = .ok s₂ →
        g.sort .reject = .error e) ∧
      ∀ s₁ e, g₁.sort .reject = .ok s₁ → g₂.sort .reject = .error e →
        g.sort .reject = .error e := by
  obtain ⟨g, hbuild, hnodes⟩ := exists_build_append hdisjoint
  refine ⟨g, hbuild, ?_, ⟨?_, ?_⟩, ?_, ?_, ?_⟩
  · obtain ⟨s₁, h₁⟩ := exists_sort_tolerate g₁
    obtain ⟨s₂, h₂⟩ := exists_sort_tolerate g₂
    exact ⟨s₁, s₂, h₁, h₂, sort_tolerate_append hdisjoint hnodes h₁ h₂⟩
  · rintro ⟨s, hsort⟩
    obtain ⟨hacyclic₁, hacyclic₂⟩ := (acyclic_append_iff hnodes).1 (acyclic_of_sort_reject hsort)
    exact ⟨exists_sort_reject_of_acyclic hacyclic₁, exists_sort_reject_of_acyclic hacyclic₂⟩
  · rintro ⟨⟨s₁, h₁⟩, s₂, h₂⟩
    exact ⟨_, sort_reject_append hdisjoint hnodes h₁ h₂⟩
  · intro s₁ s₂ h₁ h₂
    exact sort_reject_append hdisjoint hnodes h₁ h₂
  · intro e s₂ h₁ h₂
    exact sort_reject_of_visitParts hdisjoint hnodes (visitParts_of_left h₁ h₂)
  · intro s₁ e h₁ h₂
    exact sort_reject_of_visitParts hdisjoint hnodes (visitParts_of_right h₁ h₂)

/-- No root of the first graph depends on its cycle. It is met after the roots of both graphs have
been visited, and reported as if the first graph were alone. -/
theorem sort_components_of_hidden_cycle :
    let g₁ : Graph := ⟨[⟨"out", ["k"]⟩, ⟨"a", ["b"]⟩, ⟨"b", ["k", "a"]⟩, ⟨"k", []⟩],
      by decide, by decide⟩
    let g₂ : Graph := ⟨[⟨"x", []⟩, ⟨"z", []⟩, ⟨"y", ["x", "x"]⟩], by decide, by decide⟩
    g₁.outputs.Disjoint g₂.outputs ∧
      ∃ g, build (g₁.nodes ++ g₂.nodes) = .ok g ∧
        g.sort .tolerate =
          .ok ⟨[⟨"k", []⟩, ⟨"out", ["k"]⟩, ⟨"z", []⟩, ⟨"x", []⟩, ⟨"y", ["x", "x"]⟩]⟩ ∧
        g.sort .reject = .error (.cycleDetected ["a", "b", "a"]) := by
  intro g₁ g₂
  have hdisjoint : g₁.outputs.Disjoint g₂.outputs := List.disjoint_left.2 (by decide)
  have htolerate₁ : g₁.sort .tolerate = .ok ⟨[⟨"k", []⟩, ⟨"out", ["k"]⟩]⟩ := by decide +kernel
  have htolerate₂ : g₂.sort .tolerate = .ok ⟨[⟨"z", []⟩, ⟨"x", []⟩, ⟨"y", ["x", "x"]⟩]⟩ := by
    decide +kernel
  have hreject₁ : g₁.sort .reject = .error (.cycleDetected ["a", "b", "a"]) := by decide +kernel
  have hreject₂ : g₂.sort .reject = .ok ⟨[⟨"z", []⟩, ⟨"x", []⟩, ⟨"y", ["x", "x"]⟩]⟩ := by
    decide +kernel
  obtain ⟨g, hbuild, ⟨s₁, s₂, h₁, h₂, htolerate⟩, -, -, hleft, -⟩ := sort_components hdisjoint
  cases h₁.symm.trans htolerate₁
  cases h₂.symm.trans htolerate₂
  exact ⟨hdisjoint, g, hbuild, htolerate, hleft _ _ hreject₁ hreject₂⟩

/-- Where both graphs have a cycle, one that a root of the second graph depends on is met before one
that is hidden in the first graph. -/
example :
    let g : Graph := ⟨[⟨"a", ["b"]⟩, ⟨"b", ["a"]⟩] ++ [⟨"out", ["c"]⟩, ⟨"c", ["c"]⟩],
      by decide, by decide⟩
    g.sort .reject = .error (.cycleDetected ["c", "c"]) := by
  decide +kernel

end Graph

end SlotPlan
