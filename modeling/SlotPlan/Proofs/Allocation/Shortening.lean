import SlotPlan.Proofs.Allocation.Width

/-!
# Shorter lifetimes never cost slots

If a value is given up earlier, its slot is free earlier, and every later value may find another
slot than before. So two passes with different lifetimes have nothing in common step by step. But a
pass uses as many slots as values are live at once (`Schedule.slotsUsed_le_of_widthAt_le`), and this
number does not depend on any choice: it counts the values that were created and are still needed at
a position (`Schedule.widthAt_allocateWith`). Shorter lifetimes make it smaller everywhere, or leave
it as it is (`Schedule.widthAt_mono`), so they do not cost a slot (`Schedule.Built.slotsUsed_mono`).
-/

set_option autoImplicit false

namespace SlotPlan

namespace Record

/-- A value holds its slot while it is needed, and when it is created. -/
theorem liveAt_iff {r : Record} {p : Nat} :
    r.LiveAt p ↔ r.created ≤ p ∧ (Lifetime.bounded p ≤ r.lifetime ∨ p ≤ r.created) := by
  rw [LiveAt, bounded_le_liveUntil_iff]

end Record

namespace Liveness

/-- Without their slots, the records of a pass are told by the values and their positions alone. -/
theorem map_unplaced_assign (l : Liveness) (nodes : List Node) :
    ∀ (t : SlotTable) (position : Nat),
      (l.assign t position nodes).assignments.map (·.record.unplaced) =
        ((nodes.map Node.output).zipIdx position).map fun (x, i) => ⟨x, 0, i, l.lifetime x⟩ := by
  induction nodes with
  | nil => exact fun _ _ => rfl
  | cons n rest ih =>
      intro t position
      rw [assign, List.map_cons, List.map_cons, ih, List.zipIdx_cons, List.map_cons]
      rfl

end Liveness

namespace Schedule

/-- **The width at a position is the number of values that were created and are still needed**, or
are created there. -/
theorem widthAt_allocateWith {s : Schedule} (h : s.outputs.Nodup) (l : Liveness) (p : Nat) :
    (s.allocateWith l).widthAt p =
      s.outputs.zipIdx.countP fun (x, i) =>
        i ≤ p ∧ (Lifetime.bounded p ≤ l.lifetime x ∨ p ≤ i) := by
  have hunplaced := l.map_unplaced_assign s.nodes {} 0
  rw [Allocation.widthAt_eq_countP_unplaced, values_allocateWith h, List.map_map]
  show (List.map (·.record.unplaced) (l.assign {} 0 s.nodes).assignments).countP _ = _
  rw [hunplaced, List.countP_map]
  apply List.countP_congr
  rintro ⟨x, i⟩ -
  simp only [Function.comp_apply, decide_eq_true_eq, Record.liveAt_iff]

/-- Shorter lifetimes make no width greater. -/
theorem widthAt_mono {s : Schedule} (h : s.outputs.Nodup) {l l' : Liveness}
    (hle : ∀ x ∈ s.outputs, l.lifetime x ≤ l'.lifetime x) (p : Nat) :
    (s.allocateWith l).widthAt p ≤ (s.allocateWith l').widthAt p := by
  rw [widthAt_allocateWith h, widthAt_allocateWith h]
  apply List.countP_mono_left
  rintro ⟨x, i⟩ hx hlive
  rw [decide_eq_true_eq] at hlive ⊢
  have hmem : x ∈ s.outputs := List.fst_mem_of_mem_zipIdx hx
  exact ⟨hlive.1, hlive.2.imp_left fun hneeded => Lifetime.le_trans hneeded (hle x hmem)⟩

/-- **Shorter lifetimes never cost slots.** If no value of a schedule is needed longer by one table
of last reads than by another one, then the allocation for the first table uses no more slots than
the allocation for the second one. -/
theorem Built.slotsUsed_mono {s : Schedule} (h : s.Built) {l l' : Liveness}
    (hle : ∀ x ∈ s.outputs, l.lifetime x ≤ l'.lifetime x) :
    (s.allocateWith l).slotsUsed ≤ (s.allocateWith l').slotsUsed := by
  have hnodup := h.nodup_outputs
  apply slotsUsed_le_of_widthAt_le hnodup
  intro p _
  calc (s.allocateWith l).widthAt p
      ≤ (s.allocateWith l').widthAt p := widthAt_mono hnodup hle p
    _ ≤ (s.allocateWith l').slotsUsed :=
      Allocation.widthAt_le_slotsUsed (conflicts_allocateWith hnodup l') p

/-- In this order of a cycle that is cut, giving up `b` as soon as it is created lets `c` have its
slot, and saves one of three slots. The second table also names `z`, which is not produced. -/
theorem Built.slotsUsed_mono_of_cycle :
    let s : Schedule := ⟨[⟨"a", ["b"]⟩, ⟨"b", ["a"]⟩, ⟨"c", ["b"]⟩, ⟨"d", ["c"]⟩]⟩
    let g : Graph := ⟨s.nodes, by decide, by decide⟩
    let l : Liveness := ⟨.ofList [("b", 0), ("c", 2)]⟩
    let l' : Liveness := ⟨.ofList [("b", 2), ("z", 0), ("c", 3)]⟩
    g.sort .tolerate = .ok s ∧
      (s.allocateWith l).records.values.map Record.slot = [0, 1, 1, 1] ∧
      (s.allocateWith l').records.values.map Record.slot = [0, 1, 2, 1] ∧
      (s.allocateWith l).slotsUsed ≤ (s.allocateWith l').slotsUsed := by
  intro s g l l'
  have hsort : g.sort .tolerate = .ok s := by decide +kernel
  refine ⟨hsort, by decide, by decide, ?_⟩
  exact Built.slotsUsed_mono (.sorted hsort) (by decide)

end Schedule

end SlotPlan
