/-!
# The cuts of a list

A cut of a list is one of its elements together with what stands before it. Sequences that grow at
their end have the cuts they had, and one more (`cuts_concat`), so what is said of an element and of
those before it is proved along the growth of the sequence.
-/

set_option autoImplicit false

namespace SlotPlan

variable {α : Type}

/-- The elements of a list, first to last, each with those before it. -/
def cuts : List α → List (List α × α)
  | [] => []
  | x :: xs => ([], x) :: (cuts xs).map fun cut => (x :: cut.1, cut.2)

/-- The cuts are the ways to write a list around one of its elements. -/
theorem mem_cuts_iff {xs before : List α} {x : α} :
    (before, x) ∈ cuts xs ↔ ∃ after, xs = before ++ x :: after := by
  induction xs generalizing before with
  | nil => simp [cuts]
  | cons y ys ih =>
      rw [cuts, List.mem_cons, List.mem_map]
      constructor
      · rintro (heq | ⟨⟨earlier, z⟩, hcut, heq⟩)
        · cases heq
          exact ⟨ys, rfl⟩
        · cases heq
          obtain ⟨after, rfl⟩ := ih.1 hcut
          exact ⟨after, rfl⟩
      · rintro ⟨after, hsplit⟩
        cases before with
        | nil =>
            cases hsplit
            exact .inl rfl
        | cons b earlier =>
            cases hsplit
            exact .inr ⟨(earlier, x), ih.2 ⟨after, rfl⟩, rfl⟩

/-- An element at the end adds the cut at itself. -/
theorem cuts_concat (xs : List α) (x : α) : cuts (xs ++ [x]) = cuts xs ++ [(xs, x)] := by
  induction xs with
  | nil => rfl
  | cons y ys ih => rw [List.cons_append, cuts, cuts, ih, List.map_append, List.cons_append]; rfl

end SlotPlan
