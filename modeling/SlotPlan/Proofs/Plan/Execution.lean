import SlotPlan.Proofs.Allocation.Pass
import SlotPlan.Proofs.Graph.Rejecting
import SlotPlan.Proofs.Schedule.Built
import SlotPlan.Proofs.Schedule.LastRead

/-!
# Running a plan in its slots

The memory of a plan has one cell for each slot. Every operation writes its output into the slot
that the allocation gave it, in the order of the schedule (`Plan.memoryAt`). What a value needs from
this is that its slot is not written again during its lifetime, and no later value in its slot is
created that early (`Schedule.endsBefore_of_slot_eq`). So a value stays in its slot until its lifetime
is over (`Schedule.read?_memoryAt`), which is no sooner than its last reader runs, and never if it
has none (`Graph.faithful_of_plan`).
-/

set_option autoImplicit false

namespace SlotPlan

/-! ## Memory -/

/-- Cells that hold the name of a value each, or nothing. -/
structure Memory where
  /-- The cells, by the number of the slot. -/
  cells : List (Option Name)
deriving DecidableEq

namespace Memory

/-- Cells that were never written. -/
def blank (slots : Nat) : Memory :=
  ⟨List.replicate slots none⟩

/-- Puts a value into a slot. There is no cell for a slot beyond the last one. -/
def write (m : Memory) (slot : Slot) (x : Name) : Memory :=
  ⟨m.cells.set slot (some x)⟩

/-- The value in a slot. -/
def read? (m : Memory) (slot : Slot) : Option Name :=
  m.cells[slot]?.join

/-- The number of cells. -/
def size (m : Memory) : Nat :=
  m.cells.length

@[simp]
theorem size_blank (slots : Nat) : (blank slots).size = slots :=
  List.length_replicate

@[simp]
theorem size_write (m : Memory) (slot : Slot) (x : Name) : (m.write slot x).size = m.size :=
  List.length_set

theorem read?_write_self {m : Memory} {slot : Slot} (h : slot < m.size) (x : Name) :
    (m.write slot x).read? slot = some x := by
  rw [read?, write, List.getElem?_set_self h, Option.join_some]

theorem read?_write_of_ne {m : Memory} {slot other : Slot} (h : slot ≠ other) (x : Name) :
    (m.write slot x).read? other = m.read? other := by
  rw [read?, write, List.getElem?_set_ne h, read?]

end Memory

/-! ## Steps -/

/-- Runs one operation: its output is written into the slot that the allocation gave it. -/
def Allocation.store (a : Allocation) (m : Memory) (n : Node) : Memory :=
  match a.slotOf? n.output with
  | some slot => m.write slot n.output
  | none => m

/-- The memory when the operations before a position have run. -/
def Plan.memoryAt (p : Plan) (i : Nat) : Memory :=
  (p.schedule.nodes.take i).foldl p.allocation.store (.blank p.slotsUsed)

theorem Allocation.store_eq_write {a : Allocation} {n : Node} {slot : Slot}
    (h : a.slotOf? n.output = some slot) (m : Memory) : a.store m n = m.write slot n.output := by
  rw [store, h]

theorem Allocation.size_store (a : Allocation) (m : Memory) (n : Node) :
    (a.store m n).size = m.size := by
  unfold store
  cases a.slotOf? n.output with
  | some slot => exact m.size_write slot n.output
  | none => rfl

theorem Plan.memoryAt_succ {p : Plan} {i : Nat} {n : Node} (h : p.schedule.get? i = some n) :
    p.memoryAt (i + 1) = p.allocation.store (p.memoryAt i) n := by
  have htake : p.schedule.nodes.take (i + 1) = p.schedule.nodes.take i ++ [n] := by
    rw [List.take_add_one, show p.schedule.nodes[i]? = some n from h, Option.toList_some]
  rw [memoryAt, htake, List.foldl_append]
  rfl

theorem Plan.size_memoryAt (p : Plan) (i : Nat) : (p.memoryAt i).size = p.slotsUsed := by
  have hfold : ∀ (nodes : List Node) (m : Memory),
      (nodes.foldl p.allocation.store m).size = m.size := by
    intro nodes
    induction nodes with
    | nil => exact fun _ => rfl
    | cons n rest ih => exact fun m => (ih _).trans (p.allocation.size_store m n)
  exact (hfold _ _).trans (Memory.size_blank _)

namespace Schedule

/-- Whether the operation at a position produces a value. -/
def ProducedAt (s : Schedule) (x : Name) (position : Nat) : Prop :=
  ∃ n, s.get? position = some n ∧ n.output = x

/-! ## Values stay in their slots -/

theorem slotOf?_allocateWith {s : Schedule} (h : s.outputs.Nodup) {l : Liveness} {r : Record}
    (hr : r ∈ (s.allocateWith l).records.values) :
    (s.allocateWith l).slotOf? r.output = some r.slot := by
  rw [Allocation.slotOf?, get?_allocateWith h hr, Option.map_some]

/-- **A value is in its slot as long as its lifetime is not over.** -/
theorem read?_memoryAt {s : Schedule} (h : s.outputs.Nodup) {l : Liveness} {r : Record}
    (hr : r ∈ (s.allocateWith l).records.values) {i : Nat} (hcreated : r.created < i)
    (hsize : i ≤ s.size) (hlive : ∀ j, j < i → r.lifetime.endsBefore j = false) :
    (Plan.memoryAt ⟨s, s.allocateWith l⟩ i).read? r.slot = some r.output := by
  -- The induction is on the number of operations that have run.
  induction i with
  | zero => exact absurd hcreated (Nat.not_lt_zero _)
  | succ i ih =>
      have hn : s.get? i = some s.nodes[i] := List.getElem?_eq_getElem hsize
      obtain ⟨r', hr', houtput, hi⟩ := exists_record h l hn
      have hslot : (s.allocateWith l).slotOf? s.nodes[i].output = some r'.slot := by
        rw [← houtput]
        exact slotOf?_allocateWith h hr'
      rw [Plan.memoryAt_succ hn, Allocation.store_eq_write hslot]
      rcases Nat.lt_succ_iff_lt_or_eq.1 hcreated with hlt | heq
      · -- The value is older than the step, and its slot is not the one that is written.
        have hne : r'.slot ≠ r.slot := by
          intro heq
          have hends := endsBefore_of_slot_eq h hr hr' (hi.symm ▸ hlt) heq.symm
          rw [hi, hlive i (Nat.lt_succ_self i)] at hends
          cases hends
        rw [Memory.read?_write_of_ne hne]
        exact ih hlt (Nat.le_of_lt hsize) fun j hj => hlive j (Nat.lt_succ_of_lt hj)
      · -- The step is the one that creates the value.
        obtain rfl := eq_of_created_eq h hr hr' (heq.trans hi.symm)
        rw [← houtput]
        apply Memory.read?_write_self
        rw [Plan.size_memoryAt]
        exact slot_lt_slotsUsed h hr

/-- The value that is produced at a position has a record that is created there. -/
theorem ProducedAt.exists_record {s : Schedule} {x : Name} {j : Nat} (hx : s.ProducedAt x j)
    (h : s.outputs.Nodup) (l : Liveness) :
    ∃ r ∈ (s.allocateWith l).records.values, r.output = x ∧ r.created = j := by
  obtain ⟨n, hn, rfl⟩ := hx
  exact Schedule.exists_record h l hn

theorem ProducedAt.lt_size {s : Schedule} {x : Name} {j : Nat} (hx : s.ProducedAt x j) :
    j < s.size := by
  obtain ⟨n, hn, -⟩ := hx
  exact (List.getElem?_eq_some_iff.1 hn).1

/-- The lifetime of a value is not over before its last reader has run. -/
theorem endsBefore_of_readAt {s : Schedule} (h : s.outputs.Nodup) {r : Record}
    (hr : r ∈ s.allocate.records.values) {i : Nat} (hread : s.ReadAt r.output i) {j : Nat}
    (hj : j ≤ i) : r.lifetime.endsBefore j = false := by
  obtain ⟨last, hlast, hle⟩ := exists_lastRead?_of_readAt hread
  rw [lifetime_of_mem_values h hr, Liveness.lifetime, hlast, Lifetime.endsBefore_eq_false_iff]
  exact Lifetime.bounded_le_bounded.2 (Nat.le_trans hj hle)

/-- The lifetime of a value without a reader is never over. -/
theorem endsBefore_of_not_readAt {s : Schedule} (h : s.outputs.Nodup) {r : Record}
    (hr : r ∈ s.allocate.records.values) (hread : ∀ i, ¬ s.ReadAt r.output i) (j : Nat) :
    r.lifetime.endsBefore j = false := by
  have hnone : s.liveness.lastRead? r.output = none := by
    rw [lastRead?_eq_none_iff]
    intro n hn hmem
    obtain ⟨i, hi⟩ := List.getElem?_of_mem hn
    exact hread i ⟨n, hi, hmem⟩
  rw [lifetime_of_mem_values h hr, Liveness.lifetime, hnone]
  rfl

/-- A schedule is cut at a position. -/
theorem nodes_eq_of_get? {s : Schedule} {i : Nat} {n : Node} (hn : s.get? i = some n) :
    s.nodes = s.nodes.take i ++ n :: s.nodes.drop (i + 1) := by
  obtain ⟨hi, rfl⟩ := List.getElem?_eq_some_iff.1 hn
  rw [List.getElem_cons_drop, List.take_append_drop]

/-- In a valid schedule every value that is read was produced before. -/
theorem Valid.exists_producedAt {s : Schedule} (h : s.Valid) {x : Name} {i : Nat}
    (hread : s.ReadAt x i) : ∃ j, j < i ∧ s.ProducedAt x j := by
  obtain ⟨n, hn, hx⟩ := hread
  have hi : i < s.nodes.length := (List.getElem?_eq_some_iff.1 hn).1
  obtain ⟨m, hm, houtput⟩ := List.mem_map.1 ((h _ _ _ (nodes_eq_of_get? hn)).1 x hx)
  obtain ⟨j, hj, rfl⟩ := List.getElem_of_mem hm
  rw [List.length_take] at hj
  have hlt : j < i := by omega
  refine ⟨j, hlt, _, ?_, houtput⟩
  rw [get?, List.getElem_take]
  exact List.getElem?_eq_getElem (Nat.lt_trans hlt hi)

end Schedule

namespace Graph

/-! ## Plans -/

theorem exists_of_plan {g : Graph} {config : Config} {p : Plan} (h : g.plan config = .ok p) :
    ∃ s, g.schedule config = .ok s ∧ p = ⟨s, s.allocate⟩ := by
  obtain ⟨s, hs, h⟩ := bind_eq_ok_iff.1 h
  cases h
  exact ⟨s, hs, rfl⟩

/-- A graph that has a schedule has a plan. -/
theorem plan_of_schedule {g : Graph} {config : Config} {s : Schedule}
    (h : g.schedule config = .ok s) : g.plan config = .ok ⟨s, s.allocate⟩ :=
  bind_eq_ok_iff.2 ⟨s, h, rfl⟩

/-- The schedule of a plan is sorted, or it is the declared one. -/
theorem sorted_or_declared_of_schedule {g : Graph} {config : Config} {s : Schedule}
    (h : g.schedule config = .ok s) :
    (∃ policy, g.sort policy = .ok s) ∨ Schedule.declared g = .ok s := by
  unfold schedule at h
  cases horder : config.order with
  | topological =>
      rw [horder] at h
      exact .inl ⟨config.cycles, h⟩
  | declared =>
      rw [horder] at h
      exact .inr h

theorem built_of_schedule {g : Graph} {config : Config} {s : Schedule}
    (h : g.schedule config = .ok s) : s.Built := by
  rcases sorted_or_declared_of_schedule h with ⟨policy, hsort⟩ | hdeclared
  · exact .sorted hsort
  · exact .declared hdeclared

/-- The schedule of a plan is sorted without a cycle or declared, unless cycles are tolerated. -/
theorem sort_or_declared_of_schedule {g : Graph} {config : Config} {s : Schedule}
    (h : g.schedule config = .ok s) (hconfig : config.cycles = .reject ∨ config.order = .declared) :
    g.sort .reject = .ok s ∨ Schedule.declared g = .ok s := by
  unfold schedule at h
  cases horder : config.order with
  | topological =>
      have hcycles : config.cycles = .reject := by
        rcases hconfig with hcycles | hdeclared
        · exact hcycles
        · rw [horder] at hdeclared
          cases hdeclared
      rw [horder, hcycles] at h
      exact .inl h
  | declared =>
      rw [horder] at h
      exact .inr h

/-- The schedule of a plan is valid, unless it is sorted and cycles are tolerated. -/
theorem valid_of_schedule {g : Graph} {config : Config} {s : Schedule}
    (h : g.schedule config = .ok s) (hconfig : config.cycles = .reject ∨ config.order = .declared) :
    s.Valid := by
  rcases sort_or_declared_of_schedule h hconfig with hsort | hdeclared
  · exact valid_of_sort_reject hsort
  · exact Schedule.valid_of_declared hdeclared

/-- The schedule of a plan has all operations, unless it is sorted and cycles are tolerated. -/
theorem perm_of_schedule {g : Graph} {config : Config} {s : Schedule}
    (h : g.schedule config = .ok s) (hconfig : config.cycles = .reject ∨ config.order = .declared) :
    s.nodes.Perm g.nodes := by
  rcases sort_or_declared_of_schedule h hconfig with hsort | hdeclared
  · exact perm_of_sort_reject hsort
  · obtain ⟨rfl, -⟩ := Schedule.validated_eq_ok_iff.1 hdeclared
    exact List.Perm.refl _

/-- **Running a plan in its slots loses nothing that is still needed.** A value that is produced
before its reader is in its slot when the reader starts and after the reader has written its own
output; a value that nothing reads is in its slot at the end. If cycles are rejected or the schedule
is the declared one, every value is produced before its readers. -/
theorem faithful_of_plan {g : Graph} {config : Config} {p : Plan} (h : g.plan config = .ok p) :
    (∀ x i j, p.schedule.ReadAt x i → p.schedule.ProducedAt x j → j < i →
      ∃ slot, p.allocation.slotOf? x = some slot ∧
        (p.memoryAt i).read? slot = some x ∧ (p.memoryAt (i + 1)).read? slot = some x) ∧
    (∀ x j, p.schedule.ProducedAt x j → (∀ i, ¬ p.schedule.ReadAt x i) →
      ∃ slot, p.allocation.slotOf? x = some slot ∧
        (p.memoryAt p.schedule.size).read? slot = some x) ∧
    (config.cycles = .reject ∨ config.order = .declared →
      ∀ x i, p.schedule.ReadAt x i → ∃ j, j < i ∧ p.schedule.ProducedAt x j) := by
  obtain ⟨s, hs, rfl⟩ := exists_of_plan h
  have hnodup := (built_of_schedule hs).nodup_outputs
  refine ⟨?_, ?_, ?_⟩
  · -- The last read of the value is not before position `i`, so the step there spares its slot.
    intro x i j hread hproduced hlt
    obtain ⟨r, hr, rfl, rfl⟩ := hproduced.exists_record hnodup s.liveness
    have hi : i < s.size := Schedule.lt_length_of_readAt hread
    have hlive : ∀ k, k ≤ i → r.lifetime.endsBefore k = false := fun k hk =>
      Schedule.endsBefore_of_readAt hnodup hr hread hk
    refine ⟨r.slot, Schedule.slotOf?_allocateWith hnodup hr, ?_, ?_⟩
    · exact Schedule.read?_memoryAt hnodup hr hlt (Nat.le_of_lt hi)
        fun k hk => hlive k (Nat.le_of_lt hk)
    · exact Schedule.read?_memoryAt hnodup hr (Nat.lt_succ_of_lt hlt) hi
        fun k hk => hlive k (Nat.le_of_lt_succ hk)
  · -- A value without a reader lives for ever.
    intro x j hproduced hunread
    obtain ⟨r, hr, rfl, rfl⟩ := hproduced.exists_record hnodup s.liveness
    refine ⟨r.slot, Schedule.slotOf?_allocateWith hnodup hr, ?_⟩
    exact Schedule.read?_memoryAt hnodup hr hproduced.lt_size (Nat.le_refl _)
      fun k _ => Schedule.endsBefore_of_not_readAt hnodup hr hunread k
  · intro hconfig x i hread
    exact (valid_of_schedule hs hconfig).exists_producedAt hread

/-- A chain that is declared from its end to its start: the sorted plan reads `b` in its slot when
`c` is made, and keeps the result `c`. -/
theorem faithful_of_plan_of_chain :
    let s : Schedule := ⟨[⟨"a", []⟩, ⟨"b", ["a"]⟩, ⟨"c", ["b", "b"]⟩]⟩
    let g : Graph := ⟨s.nodes.reverse, by decide, by decide⟩
    let p : Plan := ⟨s, s.allocate⟩
    g.plan {} = .ok p ∧
      (∃ slot, p.allocation.slotOf? "b" = some slot ∧
        (p.memoryAt 2).read? slot = some "b" ∧ (p.memoryAt 3).read? slot = some "b") ∧
      (∃ slot, p.allocation.slotOf? "c" = some slot ∧
        (p.memoryAt p.schedule.size).read? slot = some "c") ∧
      ∃ j, j < 2 ∧ p.schedule.ProducedAt "b" j := by
  intro s g p
  have hsort : g.sort .reject = .ok s := by decide +kernel
  have hplan : g.plan {} = .ok p := by
    show (g.sort .reject).bind _ = _
    rw [hsort]
    rfl
  have hread : s.ReadAt "b" 2 := ⟨_, rfl, by decide⟩
  have hunread : ∀ i, ¬ s.ReadAt "c" i := by
    rintro i ⟨n, hn, hx⟩
    have hnone : ∀ n ∈ s.nodes, "c" ∉ n.inputs := by decide
    exact hnone n (List.mem_of_getElem? hn) hx
  obtain ⟨hkept, hlast, hearlier⟩ := faithful_of_plan hplan
  exact ⟨hplan, hkept "b" 2 1 hread ⟨_, rfl, rfl⟩ (by decide), hlast "c" 2 ⟨_, rfl, rfl⟩ hunread,
    hearlier (.inl rfl) "b" 2 hread⟩

end Graph

end SlotPlan
