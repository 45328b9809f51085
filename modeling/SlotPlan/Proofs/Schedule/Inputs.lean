import Mathlib.Data.Finset.Card
import Mathlib.Data.Finset.Lattice.Fold
import Mathlib.Data.List.Fold
import Mathlib.Order.Lattice.Nat
import SlotPlan.Allocation
import SlotPlan.Proofs.Cuts
import SlotPlan.Proofs.Roster

/-!
# Counting distinct inputs

The width of an operation counts a value that is listed twice among its inputs once
(`Node.width_eq_card`): it counts the inputs that are not listed before
(`Node.width_eq_countP_cuts`). The width of a schedule is the greatest one among its operations
(`Schedule.width_eq_sup_card`), so schedules with the same operations have the same bounds
(`Schedule.bounds_eq_of_perm`).
-/

set_option autoImplicit false

namespace SlotPlan

/-! ## Counting distinct elements -/

section

variable {α : Type} [BEq α] [LawfulBEq α]

/-- The first mentions in a list are as many as the elements that it has. -/
theorem length_eraseDups_eq_card [DecidableEq α] (xs : List α) :
    xs.eraseDups.length = xs.toFinset.card := by
  have hset : xs.eraseDups.toFinset = xs.toFinset := by
    apply Finset.ext
    intro x
    rw [List.mem_toFinset, List.mem_toFinset, List.mem_eraseDups]
  rw [← hset, List.toFinset_card_of_nodup (nodup_eraseDups xs)]

/-- The first mentions in a list are as many as the cuts at an element that does not stand before. -/
theorem length_eraseDups_eq_countP_cuts (xs : List α) :
    xs.eraseDups.length = (cuts xs).countP fun (earlier, x) => x ∉ earlier := by
  induction xs using List.reverseRecOn with
  | nil => rfl
  | append_singleton xs x ih =>
      rw [eraseDups_concat, cuts_concat, List.countP_append, ← ih, List.countP_singleton]
      by_cases hx : x ∈ xs <;> simp [hx]

end

/-! ## The width of an operation -/

namespace Node

theorem nodup_reads (n : Node) : n.reads.Nodup :=
  nodup_eraseDups n.inputs

/-- The width of an operation is the number of values that it reads. -/
theorem width_eq_card (n : Node) : n.width = n.inputs.toFinset.card :=
  length_eraseDups_eq_card n.inputs

/-- The width of an operation is the number of inputs that are not listed before. -/
theorem width_eq_countP_cuts (n : Node) :
    n.width = (cuts n.inputs).countP fun (earlier, x) => x ∉ earlier :=
  length_eraseDups_eq_countP_cuts n.inputs

end Node

/-! ## The width and the bounds of a schedule -/

namespace Schedule

/-- The width of a schedule is that of its widest operations. -/
theorem width_eq_sup (s : Schedule) : s.width = s.nodes.toFinset.sup Node.width := by
  have himage : (s.nodes.map Node.width).toFinset = s.nodes.toFinset.image Node.width := by
    apply Finset.ext
    intro k
    simp only [List.mem_toFinset, List.mem_map, Finset.mem_image]
  calc s.width
      = (s.nodes.map Node.width).foldr max 0 := List.foldl_eq_foldr
    _ = (s.nodes.map Node.width).toFinset.sup id := List.foldr_sup_eq_sup_toFinset _
    _ = (s.nodes.toFinset.image Node.width).sup id := by rw [himage]
    _ = s.nodes.toFinset.sup Node.width := Finset.sup_image _ _ _

/-- The width of a schedule is the greatest number of values that one of its operations reads. -/
theorem width_eq_sup_card (s : Schedule) :
    s.width = s.nodes.toFinset.sup fun n => n.inputs.toFinset.card := by
  rw [width_eq_sup, funext Node.width_eq_card]

/-- A schedule that is not empty has an operation as wide as itself. -/
theorem exists_width_eq {s : Schedule} (h : s.nodes ≠ []) : ∃ n ∈ s.nodes, n.width = s.width := by
  have hnonempty : s.nodes.toFinset.Nonempty := (List.toFinset_nonempty_iff s.nodes).2 h
  obtain ⟨n, hn, hwidth⟩ := Finset.exists_mem_eq_sup _ hnonempty Node.width
  exact ⟨n, List.mem_toFinset.1 hn, hwidth.symm.trans s.width_eq_sup.symm⟩

/-- The width does not depend on the order of the operations. -/
theorem width_eq_of_perm {s s' : Schedule} (h : s.nodes.Perm s'.nodes) : s.width = s'.width := by
  rw [width_eq_sup, width_eq_sup, List.toFinset_eq_of_perm _ _ h]

/-- **Schedules with the same operations have the same bounds**, whatever their order. -/
theorem bounds_eq_of_perm {s s' : Schedule} (h : s.nodes.Perm s'.nodes) :
    s.bounds = s'.bounds := by
  have hsize : s.size = s'.size := h.length_eq
  rw [bounds, bounds, width_eq_of_perm h, hsize]

end Schedule

end SlotPlan
