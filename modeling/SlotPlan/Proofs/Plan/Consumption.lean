import SlotPlan.Plan.Trace
import SlotPlan.Proofs.Plan.Lifetimes
import SlotPlan.Proofs.Schedule.FirstRead
import SlotPlan.Proofs.Schedule.Inputs
import SlotPlan.Proofs.Schedule.Invariant

/-!
# Counting the values that are read

The analysis of last reads reports how many values are read, and takes the other operations for
those whose values live for ever. The first number counts names in a table
(`Schedule.size_liveness`), the second one is what it leaves of the number of operations. So the
second number says what it is meant to say only if every value that is read is produced by exactly
one operation of the schedule. Every schedule that can be built is of this kind, also if it lacks
operations of its graph or runs some before their inputs (`Schedule.Built.livenessEvent_counts`).
-/

set_option autoImplicit false

namespace SlotPlan

namespace Schedule

variable {s : Schedule}

/-- The values that some operation of a schedule reads. -/
def consumed (s : Schedule) : Finset Name :=
  (s.nodes.flatMap Node.inputs).toFinset

theorem mem_consumed_iff {x : Name} : x ∈ s.consumed ↔ ∃ n ∈ s.nodes, x ∈ n.inputs := by
  rw [consumed, List.mem_toFinset, List.mem_flatMap]

/-- The table of last reads has one entry for each value that is read. -/
theorem size_liveness (s : Schedule) : s.liveness.size = s.consumed.card := by
  have hkeys : s.liveness.size = s.liveness.lastReads.keys.length :=
    (List.length_map Prod.fst).symm
  rw [hkeys, keys_lastReads, length_eraseDups_eq_card, consumed]

/-- What is produced and not read is left unread. -/
theorem toFinset_unread (s : Schedule) : s.unread.toFinset = s.outputs.toFinset \ s.consumed := by
  apply Finset.ext
  intro x
  rw [Finset.mem_sdiff, mem_consumed_iff, List.mem_toFinset, List.mem_toFinset, unread,
    List.mem_filter]
  simp

/-- The values that live for ever are as many as those that are left unread. -/
theorem countP_isUnbounded (h : s.outputs.Nodup) :
    s.allocate.records.values.countP (·.lifetime.isUnbounded) = s.unread.length := by
  rw [← map_output_filter_isUnbounded h, List.length_map, List.countP_eq_length_filter]

/-- A schedule that can be built produces all that it reads. -/
theorem Built.consumed_subset (h : s.Built) : s.consumed ⊆ s.outputs.toFinset := by
  intro x hx
  obtain ⟨n, hn, hx⟩ := mem_consumed_iff.1 hx
  exact List.mem_toFinset.2 (h.mem_outputs_of_mem_inputs hn hx)

/-- **Every operation of a schedule produces a value that is read or one that is left unread.** -/
theorem Built.length_unread_add_card_consumed (h : s.Built) :
    s.unread.length + s.consumed.card = s.size := by
  have hnodup := h.nodup_outputs
  have hunread : s.unread.Nodup := hnodup.filter _
  calc s.unread.length + s.consumed.card
      = (s.outputs.toFinset \ s.consumed).card + s.consumed.card := by
        rw [← toFinset_unread, List.toFinset_card_of_nodup hunread]
    _ = s.outputs.toFinset.card := Finset.card_sdiff_add_card_eq_card h.consumed_subset
    _ = s.outputs.length := List.toFinset_card_of_nodup hnodup
    _ = s.size := List.length_map Node.output

/-- **What is reported about last reads counts exactly.** The first number is that of the values that
the schedule reads, the second one is that of the records of values that live for ever, and together
they are the number of operations. So the table of last reads never has more entries than the
schedule has operations. -/
theorem Built.livenessEvent_counts (h : s.Built) :
    let unbounded := s.allocate.records.values.countP (·.lifetime.isUnbounded)
    s.livenessEvent = .livenessComputed s.consumed.card unbounded ∧
      s.consumed.card + unbounded = s.size ∧ s.liveness.size ≤ s.size := by
  intro unbounded
  have hunbounded : unbounded = s.unread.length := countP_isUnbounded h.nodup_outputs
  have hsum : s.unread.length + s.consumed.card = s.size := h.length_unread_add_card_consumed
  refine ⟨?_, ?_, ?_⟩
  · rw [livenessEvent, size_liveness, ← hsum, Nat.add_sub_cancel, hunbounded]
  · rw [hunbounded, Nat.add_comm, hsum]
  · rw [size_liveness, ← hsum]
    exact Nat.le_add_left _ _

/-- The operation of `b` runs before that of `a`, which it reads, and the operation of `c` is left
out. Of the five values three are read, and `log` and `out` live for ever. -/
theorem Built.livenessEvent_counts_of_cycles :
    let s : Schedule := ⟨[⟨"k", []⟩, ⟨"log", ["k"]⟩, ⟨"b", ["a"]⟩, ⟨"a", ["b", "k"]⟩,
      ⟨"out", ["a", "a"]⟩]⟩
    let g : Graph := ⟨[⟨"log", ["k"]⟩, ⟨"a", ["b", "k"]⟩, ⟨"out", ["a", "a"]⟩, ⟨"b", ["a"]⟩,
      ⟨"c", ["k", "c"]⟩, ⟨"k", []⟩], by decide, by decide⟩
    g.sort .tolerate = .ok s ∧ s.livenessEvent = .livenessComputed 3 2 ∧
      s.consumed.card = 3 ∧ s.allocate.records.values.countP (·.lifetime.isUnbounded) = 2 ∧
      3 + 2 = s.size ∧ s.liveness.size ≤ 5 := by
  intro s g
  have hsort : g.sort .tolerate = .ok s := by decide +kernel
  have hconsumed : s.consumed.card = 3 := by decide
  have hunbounded : s.allocate.records.values.countP (·.lifetime.isUnbounded) = 2 := by decide
  obtain ⟨hevent, hsum, hsize⟩ := Built.livenessEvent_counts (.sorted hsort)
  rw [hconsumed, hunbounded] at hevent hsum
  exact ⟨hsort, hevent, hconsumed, hunbounded, hsum, hsize⟩

end Schedule

end SlotPlan
