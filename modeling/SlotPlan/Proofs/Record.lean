import Mathlib.Data.List.Pairwise
import SlotPlan.Allocation

/-!
# When a record is live

A record is live at the positions from the creation of its value to its end (`Record.LiveAt`). Two
records overlap when both are live at some position (`Record.overlaps_iff_exists_liveAt`), and an
allocation is free of conflicts when no two records in one slot overlap
(`Allocation.conflicts_eq_nil_iff`).
-/

set_option autoImplicit false

namespace SlotPlan

namespace Lifetime

/-! ## The order of lifetimes -/

theorem le_trans : ∀ {a b c : Lifetime}, a ≤ b → b ≤ c → a ≤ c
  | bounded _, bounded _, bounded _, hab, hbc => Nat.le_trans hab hbc
  | _, _, unbounded, _, _ => le_unbounded
  | _, unbounded, bounded _, _, hbc => absurd hbc not_unbounded_le_bounded
  | unbounded, bounded _, bounded _, hab, _ => absurd hab not_unbounded_le_bounded

theorem le_max_iff {p : Nat} {a b : Lifetime} :
    bounded p ≤ max a b ↔ bounded p ≤ a ∨ bounded p ≤ b := by
  show bounded p ≤ (if a ≤ b then b else a) ↔ _
  by_cases hab : a ≤ b
  · rw [if_pos hab]
    constructor
    · exact Or.inr
    · rintro (h | h)
      · exact le_trans h hab
      · exact h
  · rw [if_neg hab]
    constructor
    · exact Or.inl
    · rintro (h | h)
      · exact h
      · -- The shorter lifetime `b` reaches the position, so `a` does.
        cases a with
        | unbounded => exact le_unbounded
        | bounded m =>
            cases b with
            | unbounded => exact absurd le_unbounded hab
            | bounded n =>
                rw [bounded_le_bounded] at hab h ⊢
                omega

/-- A lifetime that has not ended before a position reaches it. -/
theorem endsBefore_eq_false_iff {l : Lifetime} {p : Nat} :
    l.endsBefore p = false ↔ bounded p ≤ l := by
  cases l with
  | unbounded => exact iff_of_true rfl le_unbounded
  | bounded last =>
      rw [bounded_le_bounded, ← Bool.not_eq_true, endsBefore_bounded]
      omega

/-- The last read comes before a position when there is one and it does. -/
theorem endsBefore_eq_true_iff {l : Lifetime} {p : Nat} :
    l.endsBefore p = true ↔ ∃ last < p, l = bounded last := by
  cases l with
  | unbounded => simp
  | bounded last => simp

theorem endsBefore_mono {l : Lifetime} {p q : Nat} (h : l.endsBefore p = true) (hpq : p ≤ q) :
    l.endsBefore q = true := by
  cases l with
  | unbounded => cases h
  | bounded last =>
      rw [endsBefore_bounded] at h ⊢
      omega

end Lifetime

namespace Record

/-- Whether the value holds its slot at a position. -/
def LiveAt (r : Record) (p : Nat) : Prop :=
  r.created ≤ p ∧ Lifetime.bounded p ≤ r.liveUntil

instance (r : Record) (p : Nat) : Decidable (r.LiveAt p) :=
  inferInstanceAs (Decidable (_ ∧ _))

theorem bounded_le_liveUntil_iff {r : Record} {p : Nat} :
    Lifetime.bounded p ≤ r.liveUntil ↔ Lifetime.bounded p ≤ r.lifetime ∨ p ≤ r.created := by
  rw [liveUntil, Lifetime.le_max_iff, Lifetime.bounded_le_bounded]

/-- A value whose lifetime ends after its creation holds its slot for this lifetime. -/
theorem liveUntil_eq_lifetime {r : Record}
    (h : ∀ last, r.lifetime = .bounded last → r.created < last) : r.liveUntil = r.lifetime := by
  apply if_neg
  cases hlifetime : r.lifetime with
  | unbounded => exact Lifetime.not_unbounded_le_bounded
  | bounded last =>
      rw [Lifetime.bounded_le_bounded]
      exact Nat.not_le_of_lt (h last hlifetime)

theorem liveAt_created (r : Record) : r.LiveAt r.created :=
  ⟨Nat.le_refl _, bounded_le_liveUntil_iff.2 (.inr (Nat.le_refl _))⟩

/-- A value that was created and whose lifetime is not over holds its slot. -/
theorem liveAt_of_endsBefore_eq_false {r : Record} {p : Nat} (hcreated : r.created ≤ p)
    (hends : r.lifetime.endsBefore p = false) : r.LiveAt p :=
  ⟨hcreated, bounded_le_liveUntil_iff.2 (.inl (Lifetime.endsBefore_eq_false_iff.1 hends))⟩

theorem overlaps_iff {a b : Record} :
    a.overlaps b = true ↔
      Lifetime.bounded a.created ≤ b.liveUntil ∧ Lifetime.bounded b.created ≤ a.liveUntil := by
  rw [overlaps, Bool.and_eq_true, decide_eq_true_eq, decide_eq_true_eq]

/-- Two records overlap when both are live at some position. -/
theorem overlaps_iff_exists_liveAt {a b : Record} :
    a.overlaps b = true ↔ ∃ p, a.LiveAt p ∧ b.LiveAt p := by
  rw [overlaps_iff]
  constructor
  · rintro ⟨hab, hba⟩
    -- The later creation is a position that both reach.
    rcases Nat.le_total a.created b.created with hle | hle
    · exact ⟨b.created, ⟨hle, hba⟩, b.liveAt_created⟩
    · exact ⟨a.created, a.liveAt_created, ⟨hle, hab⟩⟩
  · rintro ⟨p, ⟨hap, hpa⟩, ⟨hbp, hpb⟩⟩
    exact ⟨Lifetime.le_trans hap hpb, Lifetime.le_trans hbp hpa⟩

theorem overlaps_comm (a b : Record) : a.overlaps b = b.overlaps a := by
  rw [overlaps, overlaps, Bool.and_comm]

/-- A value that has been read for the last time before another one is created does not overlap with
it. -/
theorem not_overlaps_of_endsBefore {later earlier : Record}
    (hcreated : earlier.created < later.created)
    (hends : earlier.lifetime.endsBefore later.created = true) :
    earlier.overlaps later = false := by
  rw [← Bool.not_eq_true, overlaps_iff]
  rintro ⟨-, hle⟩
  rcases bounded_le_liveUntil_iff.1 hle with hle | hle
  · rw [← Lifetime.endsBefore_eq_false_iff, hends] at hle
    cases hle
  · omega

end Record

namespace Allocation

/-- Records have no conflict when those that share a slot do not overlap. -/
theorem conflictsAmong_eq_nil_iff {rs : List Record} :
    conflictsAmong rs = [] ↔ rs.Pairwise fun a b => a.slot = b.slot → a.overlaps b = false := by
  induction rs with
  | nil => exact iff_of_true rfl List.Pairwise.nil
  | cons a rs ih =>
      rw [conflictsAmong, List.append_eq_nil_iff, ih, List.pairwise_cons, List.map_eq_nil_iff,
        List.filter_eq_nil_iff]
      simp only [Bool.and_eq_true, decide_eq_true_eq, not_and, Bool.not_eq_true]

theorem conflicts_eq_nil_iff {a : Allocation} :
    a.conflicts = [] ↔
      a.records.values.Pairwise fun r r' => r.slot = r'.slot → r.overlaps r' = false :=
  conflictsAmong_eq_nil_iff

/-- Without conflicts, two records in one slot are live at no common position. -/
theorem not_liveAt_of_conflicts {a : Allocation} (h : a.conflicts = []) {r r' : Record}
    (hr : r ∈ a.records.values) (hr' : r' ∈ a.records.values) (hne : r ≠ r')
    (hslot : r.slot = r'.slot) (p : Nat) : ¬ (r.LiveAt p ∧ r'.LiveAt p) := by
  have hsymm : Std.Symm fun r r' : Record => r.slot = r'.slot → r.overlaps r' = false := by
    constructor
    intro r r' h hslot
    rw [Record.overlaps_comm]
    exact h hslot.symm
  have hoverlaps := (conflicts_eq_nil_iff.1 h).forall hr hr' hne hslot
  intro hlive
  rw [Record.overlaps_iff_exists_liveAt.2 ⟨p, hlive⟩] at hoverlaps
  cases hoverlaps

end Allocation

end SlotPlan
