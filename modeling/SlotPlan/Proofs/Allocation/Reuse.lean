import SlotPlan.Proofs.Allocation.Pass
import SlotPlan.Proofs.Cuts
import SlotPlan.Proofs.Schedule.Built

/-!
# Which slot a value gets, told from the records alone

A record is vacated when no later one has its slot and its value has been read for the last time
(`Record.Vacated`). The next value takes the slot of the vacated record that was created last, or
else a slot that no record has (`NextSlot`).

The table of slots is not mentioned in this rule. It enters the proof because its occupants are the
latest records of their slots (`Liveness.Passed.getElem?_occupants_eq_iff`), so that a vacated record
is a free slot (`Liveness.Passed.vacated_iff`), and because its slots are those of the records
(`Liveness.Passed.toFinset_slots`).
-/

set_option autoImplicit false

namespace SlotPlan

/-! ## The rule -/

namespace Record

/-- Among the records of earlier values, this one is the latest of its slot, and its value is read
for the last time before the position that comes next. -/
def Vacated (earlier : List Record) (r : Record) : Prop :=
  r ∈ earlier ∧ (∀ q ∈ earlier, r.created < q.created → q.slot ≠ r.slot) ∧
    ∃ last < earlier.length, r.lifetime = .bounded last

instance (earlier : List Record) (r : Record) : Decidable (r.Vacated earlier) :=
  inferInstanceAs (Decidable (_ ∧ _))

end Record

/-- The slot that the next value takes after the records of earlier ones. -/
inductive NextSlot (earlier : List Record) : Slot → Prop where
  /-- Of the vacated records, it is the slot of the one that was created last. -/
  | reuse {r : Record} (hvacated : r.Vacated earlier)
      (hlatest : ∀ q : Record, q.Vacated earlier → q.created ≤ r.created) : NextSlot earlier r.slot
  /-- If there is none, its number is the number of slots that the records have. -/
  | fresh (hnone : ∀ r : Record, ¬ r.Vacated earlier) :
      NextSlot earlier (earlier.map Record.slot).toFinset.card

/-! ## Records and occupants -/

/-- The records of a history, in the order of their creation. -/
def recorded (past : List Assignment) : List Record :=
  (past.map Assignment.record).reverse

theorem recorded_cons (a : Assignment) (past : List Assignment) :
    recorded (a :: past) = recorded past ++ [a.record] := by
  rw [recorded, List.map_cons, List.reverse_cons]
  rfl

theorem mem_recorded_iff {past : List Assignment} {r : Record} :
    r ∈ recorded past ↔ ∃ a ∈ past, a.record = r := by
  rw [recorded, List.mem_reverse, List.mem_map]

theorem length_recorded (past : List Assignment) : (recorded past).length = past.length := by
  rw [recorded, List.length_reverse, List.length_map]

namespace Liveness

variable {l : Liveness} {past : List Assignment} {t : SlotTable}

/-- A record occupies its slot exactly if no later record has this slot. -/
theorem Passed.getElem?_occupants_eq_iff (h : l.Passed past t) {r : Record}
    (hr : r ∈ recorded past) :
    t.occupants[r.slot]? = some r.occupant ↔
      ∀ q ∈ recorded past, r.created < q.created → q.slot ≠ r.slot := by
  obtain ⟨a, ha, rfl⟩ := mem_recorded_iff.1 hr
  -- The occupant `b` is the latest assignment of the slot, and cuts the history in two.
  obtain ⟨b, hfind, hocc⟩ := h.exists_find? ha
  obtain ⟨hslot, later, earlier, hsplit, hlater⟩ := List.find?_eq_some_iff_append.1 hfind
  have hslot : b.record.slot = a.record.slot := of_decide_eq_true hslot
  have hcreated := h.pairwise_created
  rw [hsplit, List.pairwise_append, List.pairwise_cons] at hcreated
  obtain ⟨-, ⟨hearlier, -⟩, -⟩ := hcreated
  rw [hocc, Option.some.injEq]
  constructor
  · intro hsame q hq hlt
    obtain ⟨c, hc, rfl⟩ := mem_recorded_iff.1 hq
    have hcreated : b.record.created = a.record.created := congrArg Occupant.created hsame
    rw [hsplit, List.mem_append, List.mem_cons] at hc
    rcases hc with hc | rfl | hc
    · simpa using hlater c hc
    · omega
    · have hlt' := hearlier c hc
      omega
  · intro hlast
    rw [hsplit, List.mem_append, List.mem_cons] at ha
    rcases ha with ha | rfl | ha
    · have hne := hlater a ha
      simp at hne
    · rfl
    · have hb : b.record ∈ recorded past :=
        mem_recorded_iff.2 ⟨b, List.mem_of_find?_eq_some hfind, rfl⟩
      exact absurd hslot (hlast _ hb (hearlier a ha))

/-- **A record is vacated exactly if it occupies a slot that is free.** -/
theorem Passed.vacated_iff (h : l.Passed past t) {r : Record} :
    r.Vacated (recorded past) ↔ r ∈ recorded past ∧
      t.occupants[r.slot]? = some r.occupant ∧ r.lifetime.endsBefore past.length = true := by
  rw [Record.Vacated, length_recorded, Lifetime.endsBefore_eq_true_iff]
  apply and_congr_right
  intro hr
  rw [h.getElem?_occupants_eq_iff hr]

/-- The value that holds a free slot has a vacated record. -/
theorem Passed.exists_vacated (h : l.Passed past t) {k : Slot} {o : Occupant}
    (hk : t.occupants[k]? = some o) (hends : o.lifetime.endsBefore past.length = true) :
    ∃ r : Record, r.Vacated (recorded past) ∧ r.slot = k ∧ r.occupant = o := by
  obtain ⟨a, ha, rfl, rfl⟩ := h.exists_of_getElem?_occupants hk
  exact ⟨a.record, h.vacated_iff.2 ⟨mem_recorded_iff.2 ⟨a, ha, rfl⟩, hk, hends⟩, rfl, rfl⟩

/-- The slots of the records are those of the table. -/
theorem Passed.toFinset_slots (h : l.Passed past t) :
    ((recorded past).map Record.slot).toFinset = Finset.range t.size := by
  apply Finset.ext
  intro k
  rw [List.mem_toFinset, Finset.mem_range, ← h.mem_slots_iff, recorded, List.map_reverse,
    List.mem_reverse, List.map_map]
  rfl

/-! ## Claims follow the rule -/

theorem Passed.nextSlot (h : l.Passed past t) {lifetime : Lifetime} {c : Claim} {t' : SlotTable}
    (hclaim : t.Claimed past.length lifetime c t') : NextSlot (recorded past) c.slot := by
  cases hclaim with
  | @reuse o slot hslot hfree hlatest =>
      obtain ⟨r, hvacated, rfl, rfl⟩ := h.exists_vacated hslot hfree
      apply NextSlot.reuse hvacated
      intro q hq
      obtain ⟨-, hocc, hends⟩ := h.vacated_iff.1 hq
      exact hlatest q.slot q.occupant hocc hends
  | fresh hfull =>
      have hsize : ((recorded past).map Record.slot).toFinset.card = t.size := by
        rw [h.toFinset_slots, Finset.card_range]
      rw [← hsize]
      apply NextSlot.fresh
      intro r hr
      obtain ⟨-, hocc, hends⟩ := h.vacated_iff.1 hr
      have hneeded : r.lifetime.endsBefore past.length = false := hfull r.slot r.occupant hocc
      rw [hneeded] at hends
      cases hends

/-- What a claim makes true of its record and of the records before it is true along the whole
history. -/
theorem Passed.forall_mem_cuts {P : List Record → Record → Prop}
    (hstep : ∀ {past : List Assignment} {t t' : SlotTable} {output : Name} {c : Claim},
      l.Passed past t → t.Claimed past.length (l.lifetime output) c t' →
        P (recorded past) (l.assignment past.length output c).record)
    (h : l.Passed past t) : ∀ cut ∈ cuts (recorded past), P cut.1 cut.2 := by
  induction h with
  | start => exact fun _ hcut => absurd hcut List.not_mem_nil
  | assign h hclaim ih =>
      intro cut hcut
      rw [recorded_cons, cuts_concat, List.mem_append, List.mem_singleton] at hcut
      rcases hcut with hcut | rfl
      · exact ih cut hcut
      · exact hstep h hclaim

end Liveness

namespace Schedule

theorem recorded_allocationPass {s : Schedule} (h : s.outputs.Nodup) (l : Liveness) :
    recorded (s.allocationPass l).assignments.reverse = (s.allocateWith l).records.values := by
  rw [recorded, List.map_reverse, List.reverse_reverse, values_allocateWith h]

/-- What every claim makes true of its record and of the records before it is true of the whole
allocation. -/
theorem forall_records_of_claimed {s : Schedule} (h : s.outputs.Nodup) {l : Liveness}
    {P : List Record → Record → Prop}
    (hstep : ∀ {past : List Assignment} {t t' : SlotTable} {output : Name} {c : Claim},
      l.Passed past t → t.Claimed past.length (l.lifetime output) c t' →
        P (recorded past) (l.assignment past.length output c).record) :
    ∀ before r after, (s.allocateWith l).records.values = before ++ r :: after → P before r := by
  intro before r after hsplit
  have hcuts := (s.passed_allocationPass l).forall_mem_cuts hstep
  rw [recorded_allocationPass h] at hcuts
  exact hcuts (before, r) (mem_cuts_iff.2 ⟨after, hsplit⟩)

/-- **The reuse of slots follows from the records.** The allocation of a schedule, for whatever last
reads, has one record for each operation, in their order; and the slot of each record is the one that
the rule gives after the records before it. -/
theorem Built.slots_follow_records {s : Schedule} (h : s.Built) (l : Liveness) :
    let records := (s.allocateWith l).records
    (records.keys = s.outputs ∧ records.values.map Record.output = s.outputs ∧
      records.values.map Record.created = List.range s.size ∧
      records.values.map Record.lifetime = s.outputs.map l.lifetime) ∧
    ∀ before r after, records.values = before ++ r :: after → NextSlot before r.slot := by
  have hnodup := h.nodup_outputs
  refine ⟨⟨?_, map_output_values hnodup l, map_created_values hnodup l, ?_⟩, ?_⟩
  · rw [Roster.keys, entries_allocateWith hnodup, List.map_map]
    exact s.map_output_allocationPass l
  · rw [← map_output_values hnodup l, List.map_map]
    exact List.map_congr_left fun r hr => lifetime_of_mem_values hnodup hr
  · exact forall_records_of_claimed (P := fun before r => NextSlot before r.slot) hnodup
      fun hpassed hclaim => hpassed.nextSlot hclaim

/-- The order of a cycle that is cut, with last reads from elsewhere. The slots of `a` and of `b` are
free for `c`, which takes the one that was filled later; then only that of `a` is free for `d`. -/
theorem Built.slots_follow_records_of_cycle :
    let s : Schedule := ⟨[⟨"a", ["b"]⟩, ⟨"b", ["a"]⟩, ⟨"c", ["b"]⟩, ⟨"d", ["c"]⟩]⟩
    let g : Graph := ⟨s.nodes, by decide, by decide⟩
    let l : Liveness := ⟨.ofList [("b", 0), ("c", 3), ("a", 1)]⟩
    let records := (s.allocateWith l).records
    let a : Record := ⟨"a", 0, 0, .bounded 1⟩
    let b : Record := ⟨"b", 1, 1, .bounded 0⟩
    let c : Record := ⟨"c", 1, 2, .bounded 3⟩
    let d : Record := ⟨"d", 0, 3, .unbounded⟩
    g.sort .tolerate = .ok s ∧ records.values = [a, b, c, d] ∧ records.keys = s.outputs ∧
      (a.Vacated [a, b] ∧ b.Vacated [a, b] ∧ NextSlot [a, b] 1) ∧
      a.Vacated [a, b, c] ∧ ¬ b.Vacated [a, b, c] ∧ NextSlot [a, b, c] 0 := by
  intro s g l records a b c d
  have hsort : g.sort .tolerate = .ok s := by decide +kernel
  have hvalues : records.values = [a, b, c, d] := by decide
  obtain ⟨⟨hkeys, -⟩, hslots⟩ := Built.slots_follow_records (.sorted hsort) l
  exact ⟨hsort, hvalues, hkeys, ⟨by decide, by decide, hslots [a, b] c [d] hvalues⟩, by decide,
    by decide, hslots [a, b, c] d [] hvalues⟩

end Schedule

end SlotPlan
