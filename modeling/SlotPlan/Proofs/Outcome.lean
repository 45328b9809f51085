import Mathlib.Data.List.Forall2

/-!
# Outcomes of computations that can fail

A computation in several steps succeeds when every step does (`bind_eq_ok_iff`), and fails at the
first step that does not (`bind_eq_error_iff`); the steps may be those of a list
(`foldlM_eq_error_iff`). Changing the result of a computation does not change whether it succeeds
(`map_eq_ok_iff`, `map_eq_error_iff`).

Two computations agree when both succeed, with results that are related, or both fail for the same
reason (`Agree`). If each step agrees with its counterpart, all steps do (`Agree.foldlM`).
-/

set_option autoImplicit false

namespace SlotPlan

variable {ε α β : Type} {x : Except ε α}

theorem ok_bind (a : α) (f : α → Except ε β) : (Except.ok a >>= f) = f a :=
  rfl

theorem bind_eq_ok_iff {f : α → Except ε β} {b : β} :
    (x >>= f) = .ok b ↔ ∃ a, x = .ok a ∧ f a = .ok b := by
  cases x with
  | ok a =>
      constructor
      · intro h
        exact ⟨a, rfl, h⟩
      · rintro ⟨a', heq, h⟩
        cases heq
        exact h
  | error e =>
      constructor
      · intro h
        cases h
      · rintro ⟨a, h, -⟩
        cases h

theorem bind_eq_error_iff {f : α → Except ε β} {e : ε} :
    (x >>= f) = .error e ↔ x = .error e ∨ ∃ a, x = .ok a ∧ f a = .error e := by
  cases x with
  | ok a =>
      constructor
      · intro h
        exact .inr ⟨a, rfl, h⟩
      · rintro (h | ⟨a', heq, h⟩)
        · cases h
        · cases heq
          exact h
  | error e' =>
      constructor
      · intro h
        cases h
        exact .inl rfl
      · rintro (h | ⟨a, h, -⟩)
        · cases h
          rfl
        · cases h

/-- Steps along a list fail at one of its elements, and those before it succeed. -/
theorem foldlM_eq_error_iff {f : β → α → Except ε β} {e : ε} {xs : List α} :
    ∀ {b : β}, xs.foldlM f b = .error e ↔
      ∃ before a after b', xs = before ++ a :: after ∧ before.foldlM f b = .ok b' ∧
        f b' a = .error e := by
  induction xs with
  | nil =>
      intro b
      constructor
      · intro h
        cases h
      · rintro ⟨before, a, after, b', h, -, -⟩
        cases before <;> cases h
  | cons x xs ih =>
      intro b
      rw [List.foldlM_cons, bind_eq_error_iff]
      constructor
      · rintro (h | ⟨b₁, hx, h⟩)
        · exact ⟨[], x, xs, b, rfl, rfl, h⟩
        · obtain ⟨before, a, after, b', rfl, hbefore, ha⟩ := ih.1 h
          refine ⟨x :: before, a, after, b', rfl, ?_, ha⟩
          rw [List.foldlM_cons, bind_eq_ok_iff]
          exact ⟨b₁, hx, hbefore⟩
      · rintro ⟨before, a, after, b', hsplit, hbefore, ha⟩
        cases before with
        | nil =>
            cases hsplit
            cases hbefore
            exact .inl ha
        | cons y before =>
            cases hsplit
            rw [List.foldlM_cons, bind_eq_ok_iff] at hbefore
            obtain ⟨b₁, hx, hbefore⟩ := hbefore
            exact .inr ⟨b₁, hx, ih.2 ⟨before, a, after, b', rfl, hbefore, ha⟩⟩

/-- If each step gives its element, all steps give the list of these elements. -/
theorem mapM_eq_ok_of_forall₂ {f : α → Except ε β} {xs : List α} {ys : List β}
    (h : List.Forall₂ (fun x y => f x = .ok y) xs ys) : xs.mapM f = .ok ys := by
  induction h with
  | nil => rfl
  | cons hfirst _ ih =>
      rw [List.mapM_cons, hfirst, ih]
      rfl

/-- If each step undoes what was done to an element, all steps give the list that was there. -/
theorem mapM_map_eq_ok {f : β → Except ε α} {g : α → β} {xs : List α}
    (h : ∀ x ∈ xs, f (g x) = .ok x) : (xs.map g).mapM f = .ok xs :=
  mapM_eq_ok_of_forall₂ (List.forall₂_map_left_iff.2 (List.forall₂_same.2 h))

theorem map_eq_ok_iff {f : α → β} {b : β} : x.map f = .ok b ↔ ∃ a, x = .ok a ∧ f a = b := by
  cases x <;> simp [Except.map]

theorem map_eq_error_iff {f : α → β} {e : ε} : x.map f = .error e ↔ x = .error e := by
  cases x <;> simp [Except.map]

/-! ## Computations that agree -/

/-- Two outcomes agree when both are results that are related, or both are the same error. -/
inductive Agree (R : α → β → Prop) : Except ε α → Except ε β → Prop where
  /-- Both computations succeed. -/
  | ok {a : α} {b : β} (h : R a b) : Agree R (.ok a) (.ok b)
  /-- Both computations fail. -/
  | error (e : ε) : Agree R (.error e) (.error e)

namespace Agree

variable {R : α → β → Prop} {y : Except ε β}

theorem exists_ok {a : α} (h : Agree R (.ok a) y) : ∃ b, y = .ok b ∧ R a b := by
  cases h with
  | ok hab => exact ⟨_, rfl, hab⟩

theorem eq_error {e : ε} (h : Agree R (.error e) y) : y = .error e := by
  cases h
  rfl

/-- Computations in two steps agree if both steps do. -/
theorem bind {α' β' : Type} {T : α' → β' → Prop} {k : α → Except ε α'} {k' : β → Except ε β'}
    (h : Agree R x y) (hk : ∀ a b, R a b → Agree T (k a) (k' b)) :
    Agree T (x >>= k) (y >>= k') := by
  cases h with
  | ok hab => exact hk _ _ hab
  | error e => exact .error e

/-- Steps along a list agree if every step keeps the relation or fails like its counterpart. -/
theorem foldlM {γ : Type} {f : α → γ → Except ε α} {f' : β → γ → Except ε β} {xs : List γ}
    (hstep : ∀ a b, ∀ c ∈ xs, R a b → Agree R (f a c) (f' b c)) :
    ∀ {a : α} {b : β}, R a b → Agree R (xs.foldlM f a) (xs.foldlM f' b) := by
  induction xs with
  | nil => exact fun h => .ok h
  | cons c xs ih =>
      intro a b h
      rw [List.foldlM_cons, List.foldlM_cons]
      apply (hstep a b c List.mem_cons_self h).bind
      intro a' b' h'
      exact ih (fun a b d hd => hstep a b d (List.mem_cons_of_mem _ hd)) h'

end Agree

end SlotPlan
