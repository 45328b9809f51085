import SlotPlan.Proofs.Allocation.Pass
import SlotPlan.Proofs.Schedule.Built

/-!
# No two live values share a slot

A value that takes over a slot comes after the lifetimes of all values that held it, so no two
records in one slot overlap (`Schedule.conflicts_allocateWith`). This asks nothing of the last reads
the slots are given by: they may name other values, leave values out, or end before the value is
created. It only rests on outputs being distinct, which every schedule that can be built ensures
(`Schedule.Built.disjoint_lifetimes`).
-/

set_option autoImplicit false

namespace SlotPlan

namespace Schedule

theorem conflicts_allocateWith {s : Schedule} (h : s.outputs.Nodup) (l : Liveness) :
    (s.allocateWith l).conflicts = [] := by
  rw [Allocation.conflicts_eq_nil_iff]
  apply (pairwise_values_allocateWith h l).imp
  rintro earlier later ⟨hcreated, hends⟩ hslot
  exact Record.not_overlaps_of_endsBefore hcreated (hends hslot)

/-- **In the allocation of a schedule, for whatever last reads, two values in one slot are live at
no common position.** -/
theorem Built.disjoint_lifetimes {s : Schedule} (h : s.Built) (l : Liveness) :
    (s.allocateWith l).conflicts = [] ∧
      ∀ r ∈ (s.allocateWith l).records.values, ∀ r' ∈ (s.allocateWith l).records.values,
        r ≠ r' → r.slot = r'.slot → ∀ p, ¬ (r.LiveAt p ∧ r'.LiveAt p) := by
  have hconflicts := conflicts_allocateWith h.nodup_outputs l
  refine ⟨hconflicts, ?_⟩
  intro r hr r' hr' hne hslot p
  exact Allocation.not_liveAt_of_conflicts hconflicts hr hr' hne hslot p

/-- In this order of a cycle that is cut, `a` runs before `b`, which it reads. The last reads leave
out `a`, end `b` before it is created and name the unknown value `z`. -/
theorem Built.disjoint_lifetimes_of_cycle :
    let s : Schedule := ⟨[⟨"a", ["b"]⟩, ⟨"b", ["a"]⟩, ⟨"c", ["b"]⟩]⟩
    let g : Graph := ⟨s.nodes, by decide, by decide⟩
    let l : Liveness := ⟨.ofList [("b", 0), ("z", 7)]⟩
    g.sort .tolerate = .ok s ∧
      (s.allocateWith l).records.values.map Record.slot = [0, 1, 1] ∧
      (s.allocateWith l).conflicts = [] := by
  intro s g l
  have hsort : g.sort .tolerate = .ok s := by decide +kernel
  exact ⟨hsort, by decide, (Built.disjoint_lifetimes (.sorted hsort) l).1⟩

end Schedule

end SlotPlan
