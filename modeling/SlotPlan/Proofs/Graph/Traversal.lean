import Mathlib.Data.Finset.Card
import SlotPlan.Proofs.Graph.Dependence

/-!
# The recursive traversal of a graph

The traversal says in the fewest words in which order a graph is emitted. A visit to a marked value
returns at once. A visit to any other value marks it, visits the inputs of its operation one after the
other, and then emits the operation (`Traversal.visit_of_mem`, `Traversal.visit_of_producer?`). It
also notes when a value is met that is marked but not emitted yet.

Visits never take a mark back (`Traversal.Extends`), and every visit that does not return at once
marks one value more, so the recursion ends on every graph, cyclic ones included. Facts about all
visits are proved along it (`Traversal.visits_induction`).
-/

set_option autoImplicit false

namespace SlotPlan

/-- The state of a traversal. -/
structure Traversal where
  /-- The values that have been marked, first to last. -/
  marked : List Name := []
  /-- The operations that have been emitted, the latest first. -/
  emitted : List Node := []
  /-- The values that were met while marked and not emitted, the latest first. -/
  reentered : List Name := []
deriving DecidableEq

namespace Traversal

/-- Marks a value. -/
def mark (t : Traversal) (x : Name) : Traversal :=
  { t with marked := t.marked ++ [x] }

/-- Emits an operation. -/
def emit (t : Traversal) (n : Node) : Traversal :=
  { t with emitted := n :: t.emitted }

/-- Returns from a value that is marked, and notes it if it has not been emitted. -/
def meet (t : Traversal) (x : Name) : Traversal :=
  if x ∈ t.emitted.map Node.output then t else { t with reentered := x :: t.reentered }

/-! ## What a traversal keeps -/

/-- The later state has all marks of the earlier one, and all that was noted. -/
structure Extends (t t' : Traversal) : Prop where
  /-- No mark is taken back. -/
  marked : t.marked ⊆ t'.marked
  /-- What was noted stays. -/
  reentered : t.reentered <:+ t'.reentered

theorem Extends.refl (t : Traversal) : t.Extends t :=
  ⟨List.Subset.refl _, List.suffix_refl _⟩

theorem Extends.trans {t₁ t₂ t₃ : Traversal} (h₁ : t₁.Extends t₂) (h₂ : t₂.Extends t₃) :
    t₁.Extends t₃ :=
  ⟨List.Subset.trans h₁.marked h₂.marked, h₁.reentered.trans h₂.reentered⟩

theorem extends_mark (t : Traversal) (x : Name) : t.Extends (t.mark x) :=
  ⟨List.subset_append_left _ _, List.suffix_refl _⟩

theorem extends_emit (t : Traversal) (n : Node) : t.Extends (t.emit n) :=
  ⟨List.Subset.refl _, List.suffix_refl _⟩

theorem extends_meet (t : Traversal) (x : Name) : t.Extends (t.meet x) := by
  unfold meet
  split
  · exact Extends.refl t
  · exact ⟨List.Subset.refl _, List.suffix_cons _ _⟩

/-- The number of values of a graph that are not marked. -/
def unmarked (g : Graph) (t : Traversal) : Nat :=
  (g.outputs.toFinset \ t.marked.toFinset).card

theorem Extends.unmarked_le {t t' : Traversal} (h : t.Extends t') (g : Graph) :
    t'.unmarked g ≤ t.unmarked g := by
  apply Finset.card_le_card
  apply Finset.sdiff_subset_sdiff (Finset.Subset.refl _)
  intro x hx
  rw [List.mem_toFinset] at hx ⊢
  exact h.marked hx

/-- A new mark leaves one value less to be marked. -/
theorem unmarked_mark_lt {g : Graph} {t : Traversal} {x : Name} (hx : x ∉ t.marked)
    (hout : x ∈ g.outputs) : (t.mark x).unmarked g < t.unmarked g := by
  apply Finset.card_lt_card
  rw [Finset.ssubset_iff_of_subset]
  · exact ⟨x, by simp [hout, hx], by simp [mark]⟩
  · apply Finset.sdiff_subset_sdiff (Finset.Subset.refl _)
    intro y hy
    rw [List.mem_toFinset] at hy ⊢
    exact (t.extends_mark x).marked hy

/-! ## Visits -/

mutual

/-- Visits a value. The result carries the proof that no mark is taken back. -/
def visiting (g : Graph) (t : Traversal) (x : Name) : { t' : Traversal // t.Extends t' } :=
  if _hx : x ∈ t.marked then ⟨t.meet x, t.extends_meet x⟩
  else
    match _hproducer : g.producer? x with
    | none => ⟨t, .refl t⟩
    | some n =>
      let inner := visitingAll g (t.mark x) n.inputs
      ⟨inner.1.emit n, ((t.extends_mark x).trans inner.2).trans (inner.1.extends_emit n)⟩
termination_by (t.unmarked g, 0)
decreasing_by exact .left _ _ (unmarked_mark_lt _hx (Graph.mem_outputs_of_producer? _hproducer))

/-- Visits values one after the other. -/
def visitingAll (g : Graph) (t : Traversal) (xs : List Name) : { t' : Traversal // t.Extends t' } :=
  match xs with
  | [] => ⟨t, .refl t⟩
  | x :: xs =>
    let first := visiting g t x
    let rest := visitingAll g first.1 xs
    ⟨rest.1, first.2.trans rest.2⟩
termination_by (t.unmarked g, xs.length + 1)
decreasing_by
  · exact .right _ (Nat.succ_pos _)
  · rcases Nat.lt_or_eq_of_le (first.2.unmarked_le g) with hlt | heq
    · exact .left _ _ hlt
    · rw [heq]
      exact .right _ (Nat.lt_succ_self _)

end

/-- Visits a value. -/
def visit (g : Graph) (t : Traversal) (x : Name) : Traversal :=
  (visiting g t x).1

/-- Visits values one after the other. -/
def visitAll (g : Graph) (t : Traversal) (xs : List Name) : Traversal :=
  xs.foldl (visit g) t

theorem visitAll_cons (g : Graph) (t : Traversal) (x : Name) (xs : List Name) :
    visitAll g t (x :: xs) = visitAll g (visit g t x) xs :=
  rfl

theorem visitAll_append_cons (g : Graph) (t : Traversal) (before : List Name) (x : Name)
    (after : List Name) :
    visitAll g t (before ++ x :: after) = visitAll g (visit g (visitAll g t before) x) after := by
  rw [visitAll, List.foldl_append, List.foldl_cons]
  rfl

theorem visitingAll_eq (g : Graph) (xs : List Name) :
    ∀ t : Traversal, (visitingAll g t xs).1 = visitAll g t xs := by
  induction xs with
  | nil =>
      intro t
      rw [visitingAll]
      rfl
  | cons x xs ih =>
      intro t
      rw [visitingAll]
      exact ih _

/-- A visit to a marked value returns at once. -/
theorem visit_of_mem {g : Graph} {t : Traversal} {x : Name} (hx : x ∈ t.marked) :
    visit g t x = t.meet x := by
  rw [visit, visiting, dif_pos hx]

/-- A visit to a value that nothing produces does nothing. -/
theorem visit_of_producer?_eq_none {g : Graph} {t : Traversal} {x : Name} (hx : x ∉ t.marked)
    (hproducer : g.producer? x = none) : visit g t x = t := by
  rw [visit, visiting, dif_neg hx]
  split
  · rfl
  · rename_i n h
    rw [hproducer] at h
    cases h

/-- A visit to another value marks it, visits the inputs of its operation and emits the
operation. -/
theorem visit_of_producer? {g : Graph} {t : Traversal} {x : Name} {n : Node} (hx : x ∉ t.marked)
    (hproducer : g.producer? x = some n) :
    visit g t x = (visitAll g (t.mark x) n.inputs).emit n := by
  rw [visit, visiting, dif_neg hx]
  split
  · rename_i h
    rw [hproducer] at h
    cases h
  · rename_i m h
    rw [hproducer] at h
    cases h
    rw [← visitingAll_eq]

theorem extends_visitAll (g : Graph) (t : Traversal) (xs : List Name) :
    t.Extends (visitAll g t xs) := by
  rw [← visitingAll_eq]
  exact (visitingAll g t xs).2

/-! ## Induction along visits -/

/-- What holds of visits that return at once, passes from the visits to the inputs of an operation
to the visit that enters it, and passes along lists of visits, holds of all visits. -/
theorem visits_induction {g : Graph} {P : Traversal → Name → Prop}
    {Q : Traversal → List Name → Prop}
    (marked : ∀ t x, x ∈ t.marked → P t x)
    (absent : ∀ t x, x ∉ t.marked → g.producer? x = none → P t x)
    (enter : ∀ t x n, x ∉ t.marked → g.producer? x = some n → Q (t.mark x) n.inputs → P t x)
    (nil : ∀ t, Q t [])
    (cons : ∀ t x xs, P t x → Q (visit g t x) xs → Q t (x :: xs)) :
    (∀ t x, P t x) ∧ ∀ t xs, Q t xs := by
  apply visiting.mutual_induct g P Q
  · exact marked
  · exact absent
  · intro t x hx n hproducer hinputs
    exact enter t x n hx hproducer hinputs
  · exact nil
  · intro t x xs _ hfirst hrest _
    exact cons t x xs hfirst hrest

end Traversal

end SlotPlan
