import SlotPlan.Proofs.Graph.Resorting
import SlotPlan.Proofs.Plan.Execution

/-!
# Lifetimes in a plan

In the schedule of a plan, every value that is read at all is read after it is produced
(`Graph.readAfterwards_of_schedule`). For a valid schedule this is part of its validity. Where
cycles were cut, an operation may also run before one of its inputs, but this input was entered from
another reader, which runs later. So no lifetime in a plan ends before it begins
(`Graph.created_lt_lastRead_of_plan`).

The values that live for ever are those that no scheduled operation reads, and these are the roots
of the graph, in the same order (`Graph.unbounded_eq_roots_of_plan`).
-/

set_option autoImplicit false

namespace SlotPlan

namespace Liveness

/-! ## Lifetimes and last reads -/

theorem lifetime_eq_bounded_iff {l : Liveness} {x : Name} {last : Nat} :
    l.lifetime x = .bounded last ↔ l.lastRead? x = some last := by
  rw [lifetime]
  cases l.lastRead? x <;> simp [Lifetime.ofLastRead]

theorem isUnbounded_lifetime_iff {l : Liveness} {x : Name} :
    (l.lifetime x).isUnbounded = true ↔ l.lastRead? x = none := by
  rw [lifetime]
  cases l.lastRead? x <;> simp [Lifetime.ofLastRead, Lifetime.isUnbounded, Lifetime.lastRead?]

end Liveness

namespace Schedule

variable {s : Schedule}

/-! ## Values that are read after they are produced -/

/-- Wherever a schedule is cut, the value of the operation behind the cut is not read at all, or it
is read by an operation that comes after this one. -/
def ReadAfterwards (s : Schedule) : Prop :=
  ∀ before n after, s.nodes = before ++ n :: after →
    (∀ m ∈ s.nodes, n.output ∉ m.inputs) ∨ ∃ m ∈ after, n.output ∈ m.inputs

/-- In a valid schedule no reader of a value comes before it. -/
theorem Valid.readAfterwards (h : s.Valid) : s.ReadAfterwards := by
  intro before n after hsplit
  obtain ⟨hinputs, hnew⟩ := h before n after hsplit
  by_cases hread : ∃ m ∈ s.nodes, n.output ∈ m.inputs
  · obtain ⟨m, hm, hread⟩ := hread
    refine .inr ⟨m, ?_, hread⟩
    rw [hsplit, List.mem_append, List.mem_cons] at hm
    rcases hm with hm | rfl | hm
    · -- A reader before the cut would read what was produced still earlier.
      obtain ⟨earlier, later, rfl⟩ := List.append_of_mem hm
      rw [List.append_assoc, List.cons_append] at hsplit
      have hproduced := (h earlier m (later ++ n :: after) hsplit).1 n.output hread
      exact absurd (by simp [hproduced]) hnew
    · exact absurd (hinputs m.output hread) hnew
    · exact hm
  · left
    intro m hm hmem
    exact hread ⟨m, hm, hmem⟩

/-- A value with a record was produced at the position that the record names. -/
theorem producedAt_of_mem_values (h : s.outputs.Nodup) {l : Liveness} {r : Record}
    (hr : r ∈ (s.allocateWith l).records.values) : s.ProducedAt r.output r.created := by
  have hcreated : r.created < s.nodes.length := by
    apply List.mem_range.1
    rw [← size, ← map_created_values h l]
    exact List.mem_map_of_mem hr
  have hn : s.get? r.created = some s.nodes[r.created] := List.getElem?_eq_getElem hcreated
  obtain ⟨r', hr', houtput, hsame⟩ := exists_record h l hn
  obtain rfl := eq_of_created_eq h hr' hr hsame
  exact ⟨_, hn, houtput.symm⟩

/-- **If values are read after they are produced, no lifetime ends before it begins.** -/
theorem ReadAfterwards.created_lt (h : s.ReadAfterwards) (hnodup : s.outputs.Nodup) {r : Record}
    (hr : r ∈ s.allocate.records.values) {last : Nat} (hlast : r.lifetime = .bounded last) :
    r.created < last := by
  rw [lifetime_of_mem_values hnodup hr, Liveness.lifetime_eq_bounded_iff] at hlast
  obtain ⟨n, hn, houtput⟩ := producedAt_of_mem_values hnodup hr
  rcases h _ _ _ (nodes_eq_of_get? hn) with hunread | ⟨m, hm, hread⟩
  · rw [houtput, ← lastRead?_eq_none_iff, hlast] at hunread
    cases hunread
  · -- The later reader stands behind the creation, and the last read is not before it.
    obtain ⟨j, hj⟩ := List.getElem?_of_mem hm
    rw [List.getElem?_drop] at hj
    have hle := (lastRead?_eq_some_iff.1 hlast).2 (r.created + 1 + j) ⟨m, hj, houtput ▸ hread⟩
    omega

/-! ## Values that are not read -/

/-- The values that live for ever are those that are not read, in the order of the schedule. -/
theorem map_output_filter_isUnbounded (h : s.outputs.Nodup) :
    (s.allocate.records.values.filter (·.lifetime.isUnbounded)).map Record.output = s.unread := by
  rw [unread, ← map_output_values h s.liveness, List.filter_map]
  apply congrArg (List.map Record.output)
  apply List.filter_congr
  intro r hr
  rw [Bool.eq_iff_iff, lifetime_of_mem_values h hr, Liveness.isUnbounded_lifetime_iff,
    lastRead?_eq_none_iff]
  simp

end Schedule

namespace Graph

variable {g : Graph} {config : Config} {s : Schedule}

/-! ## Plans -/

/-- What the schedule of a plan leaves unread are the roots, in the order of declaration. -/
theorem unread_of_schedule (h : g.schedule config = .ok s) : s.unread = g.roots := by
  rcases sorted_or_declared_of_schedule h with ⟨policy, hsort⟩ | hdeclared
  · exact unread_of_sort hsort
  · obtain ⟨rfl, -⟩ := Schedule.validated_eq_ok_iff.1 hdeclared
    rfl

/-- What an operation in the schedule of a plan reads is scheduled as well. -/
theorem mem_outputs_of_schedule (h : g.schedule config = .ok s) {n : Node} (hn : n ∈ s.nodes)
    {x : Name} (hx : x ∈ n.inputs) : x ∈ s.outputs := by
  rcases sorted_or_declared_of_schedule h with ⟨policy, hsort⟩ | hdeclared
  · exact mem_outputs_of_mem_inputs hsort hn hx
  · obtain ⟨rfl, -⟩ := Schedule.validated_eq_ok_iff.1 hdeclared
    exact g.closed n hn x hx

/-- In the schedule of a plan, what is read at all is read after it is produced, also where cycles
were cut. -/
theorem readAfterwards_of_schedule (h : g.schedule config = .ok s) : s.ReadAfterwards := by
  rcases sorted_or_declared_of_schedule h with ⟨policy, hsort⟩ | hdeclared
  · intro before n after hsplit
    rcases root_or_read_after_of_sort hsort hsplit with hroot | hread
    · left
      intro m hm
      exact (mem_roots_iff.1 hroot).2 m (mem_nodes_of_sort hsort hm)
    · exact .inr hread
  · exact (Schedule.valid_of_declared hdeclared).readAfterwards

/-- **The values of a plan that live for ever are the roots**, and their records stand in the order
in which the roots are declared. -/
theorem unbounded_eq_roots_of_plan {p : Plan} (h : g.plan config = .ok p) :
    (p.allocation.records.values.filter (·.lifetime.isUnbounded)).map Record.output = g.roots := by
  obtain ⟨s, hs, rfl⟩ := exists_of_plan h
  rw [← unread_of_schedule hs]
  exact Schedule.map_output_filter_isUnbounded (built_of_schedule hs).nodup_outputs

/-- The operation of `c` is left out, although it reads `k`; the roots `log` and `out` are apart. -/
theorem unbounded_eq_roots_of_plan_of_cycles :
    let s : Schedule := ⟨[⟨"k", []⟩, ⟨"log", ["k"]⟩, ⟨"b", ["a"]⟩, ⟨"a", ["b", "k"]⟩,
      ⟨"out", ["a", "a"]⟩]⟩
    let g : Graph := ⟨[⟨"log", ["k"]⟩, ⟨"a", ["b", "k"]⟩, ⟨"out", ["a", "a"]⟩, ⟨"b", ["a"]⟩,
      ⟨"c", ["k", "c"]⟩, ⟨"k", []⟩], by decide, by decide⟩
    let p : Plan := ⟨s, s.allocate⟩
    g.plan { cycles := .tolerate } = .ok p ∧ g.roots = ["log", "out"] ∧
      (p.allocation.records.values.filter (·.lifetime.isUnbounded)).map Record.output =
        g.roots := by
  intro s g p
  have hsort : g.sort .tolerate = .ok s := by decide +kernel
  have hplan : g.plan { cycles := .tolerate } = .ok p := plan_of_schedule hsort
  exact ⟨hplan, by decide, unbounded_eq_roots_of_plan hplan⟩

/-- **No value of a plan dies before it is created**: the last read of a value comes after its
creation, also where cycles were cut. So every value holds its slot exactly for its lifetime. -/
theorem created_lt_lastRead_of_plan {p : Plan} (h : g.plan config = .ok p) :
    ∀ r ∈ p.allocation.records.values,
      (∀ last, r.lifetime = .bounded last → r.created < last) ∧ r.liveUntil = r.lifetime := by
  obtain ⟨s, hs, rfl⟩ := exists_of_plan h
  intro r hr
  have hnodup := (built_of_schedule hs).nodup_outputs
  have hcreated : ∀ last, r.lifetime = .bounded last → r.created < last := fun _ hlast =>
    (readAfterwards_of_schedule hs).created_lt hnodup hr hlast
  exact ⟨hcreated, Record.liveUntil_eq_lifetime hcreated⟩

/-- The operation of `b` runs before that of `a`, which it reads; `a` is created at position `1`
and read for the last time at position `2`. -/
theorem created_lt_lastRead_of_plan_of_cycle :
    let s : Schedule := ⟨[⟨"b", ["a"]⟩, ⟨"a", ["b", "a"]⟩, ⟨"out", ["a"]⟩]⟩
    let g : Graph := ⟨s.nodes.reverse, by decide, by decide⟩
    let p : Plan := ⟨s, s.allocate⟩
    let r : Record := ⟨"a", 1, 1, .bounded 2⟩
    g.plan { cycles := .tolerate } = .ok p ∧ s.validate = .error (.outOfOrder "b" "a") ∧
      r ∈ p.allocation.records.values ∧ r.created < 2 ∧ r.liveUntil = .bounded 2 := by
  intro s g p r
  have hsort : g.sort .tolerate = .ok s := by decide +kernel
  have hplan : g.plan { cycles := .tolerate } = .ok p := plan_of_schedule hsort
  have hr : r ∈ p.allocation.records.values := by decide
  obtain ⟨hcreated, hlive⟩ := created_lt_lastRead_of_plan hplan r hr
  exact ⟨hplan, by decide, hr, hcreated 2 rfl, hlive⟩

end Graph

end SlotPlan
