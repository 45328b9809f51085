import SlotPlan.Liveness
import SlotPlan.Proofs.Roster

/-!
# Last reads and the readers of a value

The liveness of a schedule gives a value the greatest position at which an operation reads it
(`Schedule.lastRead?_eq_some_iff`), and nothing if no operation does
(`Schedule.lastRead?_eq_none_iff`). Both follow from what one more operation changes
(`Schedule.lastRead?_concat`).
-/

set_option autoImplicit false

namespace SlotPlan

namespace Schedule

/-! ## One more operation -/

theorem readings_concat (nodes : List Node) (n : Node) :
    readings ⟨nodes ++ [n]⟩ = readings ⟨nodes⟩ ++ n.inputs.map fun input => (input, nodes.length) := by
  simp only [readings, List.zipIdx_append, List.flatMap_append, List.zipIdx_singleton,
    List.flatMap_singleton, Nat.zero_add]

theorem lookup_map_pair (xs : List Name) (position : Nat) (x : Name) :
    (xs.map fun input => (input, position)).lookup x = if x ∈ xs then some position else none := by
  induction xs with
  | nil => rfl
  | cons y ys ih =>
      rw [List.map_cons, List.lookup_cons, ih]
      by_cases hxy : x = y
      · subst hxy
        rw [beq_self_eq_true, if_pos List.mem_cons_self]
      · rw [beq_eq_false_iff_ne.2 hxy]
        simp only [List.mem_cons, hxy, false_or]

/-- An operation at the end is the last reader of its inputs, and changes no other last read. -/
theorem lastRead?_concat (nodes : List Node) (n : Node) (x : Name) :
    (liveness ⟨nodes ++ [n]⟩).lastRead? x =
      if x ∈ n.inputs then some nodes.length else (liveness ⟨nodes⟩).lastRead? x := by
  show (Roster.ofList _).get? x = if _ then _ else (Roster.ofList _).get? x
  rw [Roster.get?_ofList, Roster.get?_ofList, readings_concat, List.reverse_append,
    ← List.map_reverse, List.lookup_append, lookup_map_pair]
  by_cases hx : x ∈ n.inputs
  · rw [if_pos hx, if_pos (List.mem_reverse.2 hx), Option.some_or]
  · rw [if_neg hx, if_neg (mt List.mem_reverse.1 hx), Option.none_or]

/-! ## Readers -/

/-- Whether the operation at a position reads a value. -/
def ReadAt (s : Schedule) (x : Name) (position : Nat) : Prop :=
  ∃ n, s.get? position = some n ∧ x ∈ n.inputs

theorem readAt_concat_iff {nodes : List Node} {n : Node} {x : Name} {position : Nat} :
    ReadAt ⟨nodes ++ [n]⟩ x position ↔
      ReadAt ⟨nodes⟩ x position ∨ (position = nodes.length ∧ x ∈ n.inputs) := by
  simp only [ReadAt, get?]
  -- The position lies before the new operation, at it, or behind it.
  rcases Nat.lt_trichotomy position nodes.length with hlt | rfl | hgt
  · rw [List.getElem?_append_left hlt]
    constructor
    · exact Or.inl
    · rintro (h | ⟨heq, -⟩)
      · exact h
      · omega
  · rw [List.getElem?_concat_length, List.getElem?_eq_none (Nat.le_refl _)]
    simp
  · have hlen : (nodes ++ [n]).length ≤ position := by
      rw [List.length_append, List.length_singleton]
      exact hgt
    rw [List.getElem?_eq_none hlen, List.getElem?_eq_none (Nat.le_of_lt hgt)]
    constructor
    · rintro ⟨m, hm, -⟩
      cases hm
    · rintro (⟨m, hm, -⟩ | ⟨heq, -⟩)
      · cases hm
      · omega

theorem lt_length_of_readAt {s : Schedule} {x : Name} {position : Nat} (h : s.ReadAt x position) :
    position < s.nodes.length := by
  obtain ⟨n, hn, -⟩ := h
  exact (List.getElem?_eq_some_iff.1 hn).1

/-- The last read of a value is the greatest position at which an operation reads it. -/
theorem lastRead?_eq_some_iff {s : Schedule} {x : Name} {last : Nat} :
    s.liveness.lastRead? x = some last ↔
      s.ReadAt x last ∧ ∀ position, s.ReadAt x position → position ≤ last := by
  obtain ⟨nodes⟩ := s
  induction nodes using List.reverseRecOn with
  | nil =>
      constructor
      · intro h
        cases h
      · rintro ⟨⟨n, hn, -⟩, -⟩
        cases hn
  | append_singleton nodes n ih =>
      rw [lastRead?_concat]
      by_cases hx : x ∈ n.inputs
      · -- The new operation is a reader, and no reader comes after it.
        rw [if_pos hx, Option.some.injEq]
        have hself : ReadAt ⟨nodes ++ [n]⟩ x nodes.length := readAt_concat_iff.2 (.inr ⟨rfl, hx⟩)
        have hle : ∀ position, ReadAt ⟨nodes ++ [n]⟩ x position → position ≤ nodes.length := by
          intro position hread
          have hlt := lt_length_of_readAt hread
          simp only [List.length_append, List.length_singleton] at hlt
          omega
        constructor
        · rintro rfl
          exact ⟨hself, hle⟩
        · rintro ⟨hread, hmax⟩
          exact Nat.le_antisymm (hmax _ hself) (hle _ hread)
      · -- The new operation is no reader, so the readers are those from before.
        rw [if_neg hx, ih]
        have hiff : ∀ position, ReadAt ⟨nodes ++ [n]⟩ x position ↔ ReadAt ⟨nodes⟩ x position := by
          intro position
          rw [readAt_concat_iff]
          exact or_iff_left fun h => hx h.2
        simp only [hiff]

/-- A value without a last read is read by no operation. -/
theorem lastRead?_eq_none_iff {s : Schedule} {x : Name} :
    s.liveness.lastRead? x = none ↔ ∀ n ∈ s.nodes, x ∉ n.inputs := by
  obtain ⟨nodes⟩ := s
  induction nodes using List.reverseRecOn with
  | nil => exact iff_of_true rfl fun n hn => absurd hn List.not_mem_nil
  | append_singleton nodes n ih =>
      rw [lastRead?_concat]
      by_cases hx : x ∈ n.inputs
      · rw [if_pos hx]
        constructor
        · intro h
          cases h
        · intro h
          exact absurd hx (h n (by simp))
      · rw [if_neg hx, ih]
        simp only [List.mem_append, List.mem_singleton]
        constructor
        · rintro h m (hm | rfl)
          · exact h m hm
          · exact hx
        · intro h m hm
          exact h m (.inl hm)

/-- No reader of a value comes after its last read. -/
theorem exists_lastRead?_of_readAt {s : Schedule} {x : Name} {position : Nat}
    (h : s.ReadAt x position) : ∃ last, s.liveness.lastRead? x = some last ∧ position ≤ last := by
  cases hlast : s.liveness.lastRead? x with
  | some last => exact ⟨last, rfl, (lastRead?_eq_some_iff.1 hlast).2 position h⟩
  | none =>
      obtain ⟨n, hn, hx⟩ := h
      exact absurd hx (lastRead?_eq_none_iff.1 hlast n (List.mem_of_getElem? hn))

end Schedule

end SlotPlan
