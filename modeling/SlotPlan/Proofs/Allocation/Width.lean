import Mathlib.Data.Finset.Lattice.Fold
import Mathlib.Data.List.Perm.Subperm
import Mathlib.Order.Lattice.Nat
import SlotPlan.Proofs.Allocation.Overlap

/-!
# An allocation uses as many slots as values are live at once

The width of an allocation at a position is the number of its records that are live there
(`Allocation.widthAt`). Records that are live together need different slots, so no allocation
without conflicts has fewer slots than its greatest width (`Allocation.widthAt_le_slotsUsed`). In a
pass the bound is met: a new slot is only opened at a position where every slot is occupied by a
live value (`Liveness.Passed.size_le_of_countP_le`). So the pass uses the greatest width exactly, and
no other way to place the same values does with fewer slots (`Schedule.Built.slotsUsed_minimal`).
-/

set_option autoImplicit false

namespace SlotPlan

namespace Record

/-- A record without its slot: all records are moved to the first one. -/
def unplaced (r : Record) : Record :=
  { r with slot := 0 }

end Record

namespace Allocation

/-- The number of records that are live at a position. -/
def widthAt (a : Allocation) (p : Nat) : Nat :=
  a.records.values.countP fun r => r.LiveAt p

/-- Two allocations place the same values, created and needed at the same positions, perhaps in
other slots. -/
def PlacesSame (a b : Allocation) : Prop :=
  (a.records.values.map Record.unplaced).Perm (b.records.values.map Record.unplaced)

instance (a b : Allocation) : Decidable (a.PlacesSame b) :=
  inferInstanceAs (Decidable (List.Perm _ _))

/-! ## The width is a lower bound -/

theorem widthAt_eq_countP_unplaced (a : Allocation) (p : Nat) :
    a.widthAt p = (a.records.values.map Record.unplaced).countP fun r => r.LiveAt p := by
  rw [List.countP_map]
  rfl

/-- The width does not depend on the slots. -/
theorem PlacesSame.widthAt_eq {a b : Allocation} (h : a.PlacesSame b) (p : Nat) :
    a.widthAt p = b.widthAt p := by
  rw [widthAt_eq_countP_unplaced, widthAt_eq_countP_unplaced]
  exact h.countP_eq _

/-- **Without conflicts there are at least as many slots as values are live at a position.** -/
theorem widthAt_le_slotsUsed {a : Allocation} (h : a.conflicts = []) (p : Nat) :
    a.widthAt p ≤ a.slotsUsed := by
  -- Records that are live at `p` overlap one another, so no two of them share a slot.
  have hnodup : ((a.records.values.filter fun r => r.LiveAt p).map Record.slot).Nodup := by
    rw [List.Nodup, List.pairwise_map]
    apply ((conflicts_eq_nil_iff.1 h).sublist List.filter_sublist).imp_of_mem
    intro r r' hr hr' hoverlaps hslot
    have hlive : r.LiveAt p := of_decide_eq_true (List.mem_filter.1 hr).2
    have hlive' : r'.LiveAt p := of_decide_eq_true (List.mem_filter.1 hr').2
    have hfalse := hoverlaps hslot
    rw [Record.overlaps_iff_exists_liveAt.2 ⟨p, hlive, hlive'⟩] at hfalse
    cases hfalse
  have hsubset : (a.records.values.filter fun r => r.LiveAt p).map Record.slot ⊆
      (a.records.values.map Record.slot).eraseDups := by
    intro k hk
    rw [List.mem_eraseDups]
    exact List.map_subset _ (List.filter_subset_self _) hk
  have hle := (hnodup.subperm hsubset).length_le
  rwa [List.length_map, ← List.countP_eq_length_filter] at hle

/-- No way to place the same values without conflicts does with fewer slots than the width. -/
theorem PlacesSame.widthAt_le_slotsUsed {a b : Allocation} (h : a.PlacesSame b)
    (hb : b.conflicts = []) (p : Nat) : a.widthAt p ≤ b.slotsUsed :=
  h.widthAt_eq p ▸ Allocation.widthAt_le_slotsUsed hb p

end Allocation

namespace Liveness

/-! ## A pass reaches the width -/

section

variable {l : Liveness} {past : List Assignment} {t : SlotTable}

/-- An occupant whose lifetime is not over is live now. -/
theorem Passed.liveAt_length (h : l.Passed past t) {a : Assignment} (ha : a ∈ past)
    (hends : a.record.lifetime.endsBefore past.length = false) :
    a.record.LiveAt past.length :=
  Record.liveAt_of_endsBefore_eq_false (Nat.le_of_lt (h.created_lt_length ha)) hends

/-- Where a slot is opened, all slots before it hold a value that is live. -/
theorem Passed.size_le_countP (h : l.Passed past t)
    (hfull : ∀ (k : Slot) (o : Occupant), t.occupants[k]? = some o →
      o.lifetime.endsBefore past.length = false) :
    t.size ≤ past.countP fun a => a.record.LiveAt past.length := by
  -- Every slot of the table is the slot of its occupant, which is live.
  have hsubset : List.range t.size ⊆
      (past.filter fun a => a.record.LiveAt past.length).map (·.record.slot) := by
    intro k hk
    have hlt : k < t.occupants.length := List.mem_range.1 hk
    have hocc : t.occupants[k]? = some t.occupants[k] := List.getElem?_eq_getElem hlt
    obtain ⟨a, ha, hslot, ho⟩ := h.exists_of_getElem?_occupants hocc
    have hends := hfull k _ hocc
    rw [← ho] at hends
    refine List.mem_map.2 ⟨a, List.mem_filter.2 ⟨ha, ?_⟩, hslot⟩
    exact decide_eq_true (h.liveAt_length ha hends)
  have hle := (List.nodup_range.subperm hsubset).length_le
  rwa [List.length_range, List.length_map, ← List.countP_eq_length_filter] at hle

/-- **A pass opens no more slots than values are live at once.** -/
theorem Passed.size_le_of_countP_le (h : l.Passed past t) {bound : Nat}
    (hbound : ∀ p, p < past.length → (past.countP fun a => a.record.LiveAt p) ≤ bound) :
    t.size ≤ bound := by
  induction h with
  | start => exact Nat.zero_le _
  | @assign past t t' output c h hclaim ih =>
      cases hclaim with
      | @reuse o slot hslot hfree hlatest =>
          -- No slot is opened, and what was live before is still counted.
          show (t.occupants.set slot _).length ≤ bound
          rw [List.length_set]
          apply ih
          intro p hp
          exact Nat.le_trans (List.sublist_cons_self _ _).countP_le (hbound p (Nat.lt_succ_of_lt hp))
      | fresh hfull =>
          -- The newcomer is live as well, and makes up for the slot that is opened.
          have hlast := hbound past.length (Nat.lt_succ_self _)
          have hcount : (past.countP fun a => a.record.LiveAt past.length) + 1 ≤ bound := by
            rwa [List.countP_cons_of_pos] at hlast
            exact decide_eq_true (Record.liveAt_created _)
          show (t.occupants ++ [_]).length ≤ bound
          rw [List.length_append, List.length_singleton]
          exact Nat.le_trans (Nat.succ_le_succ (h.size_le_countP hfull)) hcount

end

end Liveness

namespace Schedule

/-- A bound on the width at every position is a bound on the slots. -/
theorem slotsUsed_le_of_widthAt_le {s : Schedule} (h : s.outputs.Nodup) (l : Liveness) {bound : Nat}
    (hbound : ∀ p, p < s.size → (s.allocateWith l).widthAt p ≤ bound) :
    (s.allocateWith l).slotsUsed ≤ bound := by
  rw [slotsUsed_eq_size h]
  apply (s.passed_allocationPass l).size_le_of_countP_le
  intro p hp
  rw [List.length_reverse, length_assignments] at hp
  have hwidth := hbound p hp
  rw [Allocation.widthAt, values_allocateWith h, List.countP_map] at hwidth
  rwa [List.countP_reverse]

/-- **The slots of a schedule are as many as values are live at once, and no other way to place the
same values without conflicts does with fewer.** -/
theorem Built.slotsUsed_minimal {s : Schedule} (h : s.Built) (l : Liveness) :
    (s.allocateWith l).slotsUsed = (Finset.range s.size).sup (s.allocateWith l).widthAt ∧
      (∀ p, (s.allocateWith l).widthAt p ≤ (s.allocateWith l).slotsUsed) ∧
      ∀ b : Allocation, (s.allocateWith l).PlacesSame b → b.conflicts = [] →
        (s.allocateWith l).slotsUsed ≤ b.slotsUsed := by
  have hnodup := h.nodup_outputs
  have hwidth := Allocation.widthAt_le_slotsUsed (conflicts_allocateWith hnodup l)
  refine ⟨Nat.le_antisymm ?_ ?_, hwidth, ?_⟩
  · apply slotsUsed_le_of_widthAt_le hnodup
    intro p hp
    exact Finset.le_sup (f := (s.allocateWith l).widthAt) (Finset.mem_range.2 hp)
  · exact Finset.sup_le fun p _ => hwidth p
  · intro b hsame hconflicts
    exact slotsUsed_le_of_widthAt_le hnodup l fun p _ => hsame.widthAt_le_slotsUsed hconflicts p

/-- Four values in the order of a cycle that is cut, with last reads from elsewhere: two slots are
enough, and two are needed. -/
theorem Built.slotsUsed_minimal_of_cycle :
    let s : Schedule := ⟨[⟨"a", ["b"]⟩, ⟨"b", ["a"]⟩, ⟨"c", ["b"]⟩, ⟨"d", ["c"]⟩]⟩
    let g : Graph := ⟨s.nodes, by decide, by decide⟩
    let l : Liveness := ⟨.ofList [("b", 0), ("c", 3), ("a", 1)]⟩
    let b : Allocation := { s.allocateWith l with
      records := .ofList [
        ("a", ⟨"a", 4, 0, .bounded 1⟩), ("b", ⟨"b", 7, 1, .bounded 0⟩),
        ("c", ⟨"c", 9, 2, .bounded 3⟩), ("d", ⟨"d", 4, 3, .unbounded⟩)] }
    g.sort .tolerate = .ok s ∧ (s.allocateWith l).slotsUsed = 2 ∧
      (Finset.range s.size).sup (s.allocateWith l).widthAt = 2 ∧ 2 ≤ b.slotsUsed := by
  intro s g l b
  have hsort : g.sort .tolerate = .ok s := by decide +kernel
  have hused : (s.allocateWith l).slotsUsed = 2 := by decide
  obtain ⟨hsup, -, hleast⟩ := Built.slotsUsed_minimal (.sorted hsort) l
  have hle := hleast b (by decide) (by decide)
  rw [hused] at hsup hle
  exact ⟨hsort, hused, hsup.symm, hle⟩

end Schedule

end SlotPlan
