import SlotPlan.Allocation.Assign
import SlotPlan.Proofs.Record
import SlotPlan.Proofs.Roster
import SlotPlan.Proofs.Schedule.Inputs
import SlotPlan.Proofs.SlotTable

/-!
# The history of an allocation pass

A pass is a history of assignments, the latest one first, together with the table of slots it has
led to (`Liveness.Passed`). Everything that holds of a pass is proved by induction on its history:
the table knows the latest assignment of every slot (`Liveness.Passed.getElem?_occupants`), and a
slot only passes from one value to the next when the lifetime of the former is over
(`Liveness.Passed.pairwise_endsBefore`).

The pass over a schedule has such a history (`Schedule.passed_allocationPass`), and if no value is
produced twice, its records are those of the allocation, in the same order
(`Schedule.values_allocateWith`).
-/

set_option autoImplicit false

namespace SlotPlan

namespace Record

/-- What the table of slots keeps of a record. -/
def occupant (r : Record) : Occupant :=
  ⟨r.created, r.lifetime⟩

end Record

namespace Liveness

/-! ## Histories -/

/-- The assignment of a value by a claim that is made at a position. -/
def assignment (l : Liveness) (position : Nat) (output : Name) (c : Claim) : Assignment :=
  ⟨⟨output, c.slot, position, l.lifetime output⟩, c⟩

/-- A pass has made the assignments `past`, the latest one first, and left the slots as the table
says. -/
inductive Passed (l : Liveness) : List Assignment → SlotTable → Prop where
  /-- Nothing has been assigned, and no slot is open. -/
  | start : Passed l [] {}
  /-- One more value claims a slot. -/
  | assign {past : List Assignment} {t t' : SlotTable} {output : Name} {c : Claim}
      (h : Passed l past t) (hclaim : t.Claimed past.length (l.lifetime output) c t') :
      Passed l (l.assignment past.length output c :: past) t'

/-- The pass from a position on carries its history further. -/
theorem Passed.assign_nodes {l : Liveness} (nodes : List Node) :
    ∀ {past : List Assignment} {t : SlotTable}, l.Passed past t →
      l.Passed ((l.assign t past.length nodes).assignments.reverse ++ past)
        (l.assign t past.length nodes).table := by
  induction nodes with
  | nil => exact fun h => h
  | cons n rest ih =>
      -- The position of the claim is the number of assignments made so far.
      intro past t h
      have hnext := ih (h.assign (t.claimed past.length (l.lifetime n.output)))
      simp only [Liveness.assign, List.reverse_cons, List.append_assoc, List.singleton_append]
      exact hnext

theorem map_output_assign (l : Liveness) (nodes : List Node) :
    ∀ (t : SlotTable) (position : Nat),
      (l.assign t position nodes).assignments.map (·.record.output) = nodes.map Node.output := by
  induction nodes with
  | nil => exact fun _ _ => rfl
  | cons n rest ih =>
      intro t position
      rw [assign, List.map_cons, List.map_cons, ih]

section

variable {l : Liveness} {past : List Assignment} {t : SlotTable}

/-! ## What a history promises -/

/-- The values were created one after the other, from position zero on. -/
theorem Passed.map_created (h : l.Passed past t) :
    past.map (·.record.created) = (List.range past.length).reverse := by
  induction h with
  | start => rfl
  | assign _ _ ih =>
      rw [List.map_cons, ih, List.length_cons, List.range_succ, List.reverse_append]
      rfl

theorem Passed.created_lt_length (h : l.Passed past t) {a : Assignment} (ha : a ∈ past) :
    a.record.created < past.length := by
  have hmem : a.record.created ∈ past.map (·.record.created) := List.mem_map_of_mem ha
  rwa [h.map_created, List.mem_reverse, List.mem_range] at hmem

/-- Later assignments are of values that were created later. -/
theorem Passed.pairwise_created (h : l.Passed past t) :
    past.Pairwise fun later earlier => earlier.record.created < later.record.created := by
  induction h with
  | start => exact List.Pairwise.nil
  | assign h _ ih => exact List.Pairwise.cons (fun _ hb => h.created_lt_length hb) ih

theorem Passed.lifetime_eq (h : l.Passed past t) {a : Assignment} (ha : a ∈ past) :
    a.record.lifetime = l.lifetime a.record.output := by
  induction h with
  | start => cases ha
  | assign _ _ ih =>
      rcases List.mem_cons.1 ha with rfl | ha
      · rfl
      · exact ih ha

/-- The occupant of a slot is the value it was assigned to last. -/
theorem Passed.getElem?_occupants (h : l.Passed past t) (k : Slot) :
    t.occupants[k]? = (past.find? (·.record.slot = k)).map (·.record.occupant) := by
  induction h with
  | start => rfl
  | @assign past t t' output c h hclaim ih =>
      rw [hclaim.getElem?_occupants, List.find?_cons]
      by_cases hk : k = c.slot
      · subst hk
        simp only [assignment, if_true, decide_true, Option.map_some, Record.occupant]
      · have hne : ¬ c.slot = k := fun hck => hk hck.symm
        simp only [assignment, if_neg hk, hne, decide_false, ih]

/-- A slot that was assigned has an occupant: the value of its latest assignment. -/
theorem Passed.exists_find? (h : l.Passed past t) {b : Assignment} (hb : b ∈ past) :
    ∃ a, past.find? (·.record.slot = b.record.slot) = some a ∧
      t.occupants[b.record.slot]? = some a.record.occupant := by
  have hsome : (past.find? (·.record.slot = b.record.slot)).isSome :=
    List.find?_isSome.2 ⟨b, hb, decide_eq_true rfl⟩
  obtain ⟨a, hfind⟩ := Option.isSome_iff_exists.1 hsome
  refine ⟨a, hfind, ?_⟩
  rw [h.getElem?_occupants, hfind, Option.map_some]

/-- Every slot that was assigned is in the table. -/
theorem Passed.slot_lt_size (h : l.Passed past t) {a : Assignment} (ha : a ∈ past) :
    a.record.slot < t.size := by
  obtain ⟨b, -, hocc⟩ := h.exists_find? ha
  exact (List.getElem?_eq_some_iff.1 hocc).1

/-- Every slot in the table was assigned, last of all to its occupant. -/
theorem Passed.exists_of_getElem?_occupants (h : l.Passed past t) {k : Slot} {o : Occupant}
    (hk : t.occupants[k]? = some o) :
    ∃ a ∈ past, a.record.slot = k ∧ a.record.occupant = o := by
  rw [h.getElem?_occupants, Option.map_eq_some_iff] at hk
  obtain ⟨a, hfind, ho⟩ := hk
  have hslot : a.record.slot = k := by simpa using List.find?_some hfind
  exact ⟨a, List.mem_of_find?_eq_some hfind, hslot, ho⟩

/-- The slots that were assigned are those of the table. -/
theorem Passed.mem_slots_iff (h : l.Passed past t) {k : Slot} :
    k ∈ past.map (·.record.slot) ↔ k < t.size := by
  constructor
  · intro hk
    obtain ⟨a, ha, rfl⟩ := List.mem_map.1 hk
    exact h.slot_lt_size ha
  · intro hk
    obtain ⟨a, ha, hslot, -⟩ := h.exists_of_getElem?_occupants (List.getElem?_eq_getElem hk)
    exact List.mem_map.2 ⟨a, ha, hslot⟩

/-- When a slot is claimed, the lifetimes of all values that held it are over. -/
theorem Passed.endsBefore_of_claimed (h : l.Passed past t)
    (hends : past.Pairwise fun later earlier => later.record.slot = earlier.record.slot →
      earlier.record.lifetime.endsBefore later.record.created = true)
    {lifetime : Lifetime} {c : Claim} {t' : SlotTable}
    (hclaim : t.Claimed past.length lifetime c t') {b : Assignment} (hb : b ∈ past)
    (hslot : b.record.slot = c.slot) : b.record.lifetime.endsBefore past.length = true := by
  -- The table only knows the occupant `a`; a value `b` from before was over when `a` came.
  obtain ⟨a, hfind, hocc⟩ := h.exists_find? hb
  have hover : a.record.lifetime.endsBefore past.length = true := hclaim.endsBefore (hslot ▸ hocc)
  obtain ⟨hslotA, later, earlier, hsplit, hlater⟩ := List.find?_eq_some_iff_append.1 hfind
  rw [hsplit, List.mem_append, List.mem_cons] at hb
  rcases hb with hb | rfl | hb
  · -- No assignment after `a` has this slot.
    have hne := hlater b hb
    simp at hne
  · exact hover
  · -- The lifetime of `b` was over when `a` was created, which is before now.
    rw [hsplit, List.pairwise_append, List.pairwise_cons] at hends
    have hendsA := hends.2.1.1 b hb (of_decide_eq_true hslotA)
    have hltA := h.created_lt_length (List.mem_of_find?_eq_some hfind)
    exact Lifetime.endsBefore_mono hendsA (Nat.le_of_lt hltA)

/-- **A slot passes on only when the lifetime of every value that held it is over.** -/
theorem Passed.pairwise_endsBefore (h : l.Passed past t) :
    past.Pairwise fun later earlier => later.record.slot = earlier.record.slot →
      earlier.record.lifetime.endsBefore later.record.created = true := by
  induction h with
  | start => exact List.Pairwise.nil
  | assign h hclaim ih =>
      refine List.Pairwise.cons ?_ ih
      intro b hb hslot
      exact h.endsBefore_of_claimed ih hclaim hb hslot.symm

end

end Liveness

namespace Schedule

/-! ## The pass over a schedule -/

theorem passed_allocationPass (s : Schedule) (l : Liveness) :
    l.Passed (s.allocationPass l).assignments.reverse (s.allocationPass l).table := by
  have h := Liveness.Passed.assign_nodes s.nodes (Liveness.Passed.start (l := l))
  rwa [List.append_nil] at h

theorem map_output_allocationPass (s : Schedule) (l : Liveness) :
    (s.allocationPass l).assignments.map (·.record.output) = s.outputs :=
  l.map_output_assign s.nodes {} 0

theorem length_assignments (s : Schedule) (l : Liveness) :
    (s.allocationPass l).assignments.length = s.size := by
  have houtputs := congrArg List.length (s.map_output_allocationPass l)
  rwa [List.length_map, outputs, List.length_map] at houtputs

theorem entries_allocateWith {s : Schedule} (h : s.outputs.Nodup) (l : Liveness) :
    (s.allocateWith l).records.entries =
      (s.allocationPass l).assignments.map fun a => (a.record.output, a.record) := by
  apply Roster.entries_ofList
  rw [List.map_map]
  exact (s.map_output_allocationPass l).symm ▸ h

/-- If no value is produced twice, the records of the allocation are those of the pass, in the order
of the operations. -/
theorem values_allocateWith {s : Schedule} (h : s.outputs.Nodup) (l : Liveness) :
    (s.allocateWith l).records.values = (s.allocationPass l).assignments.map Assignment.record := by
  rw [Roster.values, entries_allocateWith h, List.map_map]
  rfl

/-- **If no value is produced twice, two values only share a slot when the lifetime of the earlier
one is over before the later one is created.** -/
theorem pairwise_values_allocateWith {s : Schedule} (h : s.outputs.Nodup) (l : Liveness) :
    (s.allocateWith l).records.values.Pairwise fun earlier later =>
      earlier.created < later.created ∧
        (earlier.slot = later.slot → earlier.lifetime.endsBefore later.created = true) := by
  have hpassed := s.passed_allocationPass l
  rw [values_allocateWith h, List.pairwise_map]
  refine (List.pairwise_reverse.1 hpassed.pairwise_created).imp₂ ?_
    (List.pairwise_reverse.1 hpassed.pairwise_endsBefore)
  intro earlier later hcreated hends
  exact ⟨hcreated, fun hslot => hends hslot.symm⟩

/-- A value that is created in the slot of another one finds the lifetime of that one over. -/
theorem endsBefore_of_slot_eq {s : Schedule} (h : s.outputs.Nodup) {l : Liveness} {r r' : Record}
    (hr : r ∈ (s.allocateWith l).records.values) (hr' : r' ∈ (s.allocateWith l).records.values)
    (hcreated : r.created < r'.created) (hslot : r.slot = r'.slot) :
    r.lifetime.endsBefore r'.created = true := by
  obtain ⟨i, hi, rfl⟩ := List.getElem_of_mem hr
  obtain ⟨j, hj, rfl⟩ := List.getElem_of_mem hr'
  have hpairwise := List.pairwise_iff_getElem.1 (pairwise_values_allocateWith h l)
  -- The records stand in the order of creation, so `r'` cannot come before `r`.
  rcases Nat.lt_trichotomy i j with hlt | rfl | hgt
  · exact (hpairwise i j hi hj hlt).2 hslot
  · exact absurd hcreated (Nat.lt_irrefl _)
  · exact absurd (hpairwise j i hj hi hgt).1 (Nat.lt_asymm hcreated)

theorem map_output_values {s : Schedule} (h : s.outputs.Nodup) (l : Liveness) :
    (s.allocateWith l).records.values.map Record.output = s.outputs := by
  rw [values_allocateWith h, List.map_map]
  exact s.map_output_allocationPass l

theorem map_created_values {s : Schedule} (h : s.outputs.Nodup) (l : Liveness) :
    (s.allocateWith l).records.values.map Record.created = List.range s.size := by
  have hcreated := (s.passed_allocationPass l).map_created
  rw [List.map_reverse, List.length_reverse, length_assignments, List.reverse_inj] at hcreated
  rw [values_allocateWith h, List.map_map]
  exact hcreated

/-- No two values are created at one position. -/
theorem eq_of_created_eq {s : Schedule} (h : s.outputs.Nodup) {l : Liveness} {r r' : Record}
    (hr : r ∈ (s.allocateWith l).records.values) (hr' : r' ∈ (s.allocateWith l).records.values)
    (hcreated : r.created = r'.created) : r = r' := by
  have hnodup : ((s.allocateWith l).records.values.map Record.created).Nodup := by
    rw [map_created_values h]
    exact List.nodup_range
  exact List.inj_on_of_nodup_map hnodup hr hr' hcreated

/-- The slots of an allocation are the ones that the pass has opened. -/
theorem mem_slots_iff {s : Schedule} (h : s.outputs.Nodup) {l : Liveness} {k : Slot} :
    k ∈ (s.allocateWith l).records.values.map Record.slot ↔
      k < (s.allocationPass l).table.size := by
  rw [← (s.passed_allocationPass l).mem_slots_iff, List.map_reverse, List.mem_reverse,
    values_allocateWith h, List.map_map]
  rfl

theorem slotsUsed_eq_size {s : Schedule} (h : s.outputs.Nodup) (l : Liveness) :
    (s.allocateWith l).slotsUsed = (s.allocationPass l).table.size := by
  have hperm : ((s.allocateWith l).records.values.map Record.slot).eraseDups.Perm
      (List.range (s.allocationPass l).table.size) := by
    rw [List.perm_ext_iff_of_nodup (nodup_eraseDups _) List.nodup_range]
    intro k
    rw [List.mem_eraseDups, List.mem_range]
    exact mem_slots_iff h
  rw [Allocation.slotsUsed, hperm.length_eq, List.length_range]

/-- Every slot of an allocation is one of those that are counted. -/
theorem slot_lt_slotsUsed {s : Schedule} (h : s.outputs.Nodup) {l : Liveness} {r : Record}
    (hr : r ∈ (s.allocateWith l).records.values) : r.slot < (s.allocateWith l).slotsUsed := by
  rw [slotsUsed_eq_size h, ← mem_slots_iff h]
  exact List.mem_map_of_mem hr

theorem get?_allocateWith {s : Schedule} (h : s.outputs.Nodup) {l : Liveness} {r : Record}
    (hr : r ∈ (s.allocateWith l).records.values) : (s.allocateWith l).get? r.output = some r := by
  have hkeys : (s.allocateWith l).records.entries =
      (s.allocateWith l).records.values.map fun r => (r.output, r) := by
    rw [values_allocateWith h, List.map_map]
    exact entries_allocateWith h l
  rw [Allocation.get?, Roster.get?_eq_some_iff, hkeys]
  exact List.mem_map_of_mem hr

/-- The operation at a position has the record that is created there. -/
theorem exists_record {s : Schedule} (h : s.outputs.Nodup) (l : Liveness) {i : Nat} {n : Node}
    (hn : s.get? i = some n) :
    ∃ r ∈ (s.allocateWith l).records.values, r.output = n.output ∧ r.created = i := by
  have houtput := congrArg (·[i]?) (map_output_values h l)
  have hcreated := congrArg (·[i]?) (map_created_values h l)
  have hi : i < s.size := (List.getElem?_eq_some_iff.1 hn).1
  simp only [outputs, List.getElem?_map, List.getElem?_range hi] at houtput hcreated
  rw [show s.nodes[i]? = some n from hn, Option.map_some, Option.map_eq_some_iff] at houtput
  obtain ⟨r, hr, houtput⟩ := houtput
  rw [hr, Option.map_some, Option.some.injEq] at hcreated
  exact ⟨r, List.mem_of_getElem? hr, houtput, hcreated⟩

theorem lifetime_of_mem_values {s : Schedule} (h : s.outputs.Nodup) {l : Liveness} {r : Record}
    (hr : r ∈ (s.allocateWith l).records.values) : r.lifetime = l.lifetime r.output := by
  rw [values_allocateWith h, List.mem_map] at hr
  obtain ⟨a, ha, rfl⟩ := hr
  exact (s.passed_allocationPass l).lifetime_eq (List.mem_reverse.2 ha)

end Schedule

end SlotPlan
