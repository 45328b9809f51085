import SlotPlan.Plan.Trace
import SlotPlan.Proofs.Allocation.Reuse

/-!
# The events of an allocation tell its records

While slots are given to values, every value is reported with its slot, whether the slot has been used
before, and how many slots were free. All of this can be read off the finished records
(`Record.boundEvent`): a slot has been used before if an earlier record has it, and the free slots are
those of the vacated records (`Liveness.Passed.length_free`).

The slots that are reported as opened are numbered one after the other
(`Liveness.Passed.filterMap_openedSlot?`), so the size of the table at the end, the number of opened
slots and the number of slots in the allocation are the same
(`Schedule.Built.allocationEvents_tell_records`).
-/

set_option autoImplicit false

namespace SlotPlan

/-- The slots that are free after the records of earlier values: the latest record of each has been
vacated. -/
def vacantSlots (earlier : List Record) : Finset Slot :=
  ((earlier.filter fun r => r.Vacated earlier).map Record.slot).toFinset

theorem mem_vacantSlots_iff {earlier : List Record} {k : Slot} :
    k ∈ vacantSlots earlier ↔ ∃ r : Record, r.Vacated earlier ∧ r.slot = k := by
  simp only [vacantSlots, List.mem_toFinset, List.mem_map, List.mem_filter, decide_eq_true_eq]
  constructor
  · rintro ⟨r, ⟨-, hr⟩, hslot⟩
    exact ⟨r, hr, hslot⟩
  · rintro ⟨r, hr, hslot⟩
    exact ⟨r, ⟨hr.1, hr⟩, hslot⟩

/-- The event that reports a record, told from the records before it. -/
def Record.boundEvent (earlier : List Record) (r : Record) : Event :=
  .valueBound earlier.length r.output r.slot (r.slot ∈ earlier.map Record.slot)
    (vacantSlots earlier).card

/-- The slot that an event reports as opened. -/
def Event.openedSlot? : Event → Option Slot
  | .valueBound _ _ slot false _ => some slot
  | _ => none

namespace Liveness

variable {l : Liveness} {past : List Assignment} {t : SlotTable}

/-! ## What is reported about one claim -/

/-- The free slots of the table are those of the vacated records. -/
theorem Passed.length_free (h : l.Passed past t) :
    (t.free past.length).length = (vacantSlots (recorded past)).card := by
  have hnodup : ((t.free past.length).map Prod.snd).Nodup := by
    apply List.Nodup.sublist (List.filter_sublist.map Prod.snd)
    rw [List.zipIdx_map_snd]
    exact List.nodup_range'
  have hslots : ((t.free past.length).map Prod.snd).toFinset = vacantSlots (recorded past) := by
    apply Finset.ext
    intro k
    rw [List.mem_toFinset, List.mem_map, mem_vacantSlots_iff]
    constructor
    · rintro ⟨⟨o, k⟩, hfree, rfl⟩
      obtain ⟨hk, hends⟩ := SlotTable.mem_free_iff.1 hfree
      obtain ⟨r, hvacated, hslot, -⟩ := h.exists_vacated hk hends
      exact ⟨r, hvacated, hslot⟩
    · rintro ⟨r, hvacated, rfl⟩
      obtain ⟨-, hocc, hends⟩ := h.vacated_iff.1 hvacated
      exact ⟨(r.occupant, r.slot), SlotTable.mem_free_iff.2 ⟨hocc, hends⟩, rfl⟩
  rw [← hslots, List.toFinset_card_of_nodup hnodup, List.length_map]

/-- A claim reuses its slot exactly if an earlier record has it. -/
theorem Passed.reused_eq (h : l.Passed past t) {lifetime : Lifetime} {c : Claim} {t' : SlotTable}
    (hclaim : t.Claimed past.length lifetime c t') :
    c.reused = decide (c.slot ∈ (recorded past).map Record.slot) := by
  rw [Bool.eq_iff_iff, hclaim.reused_iff_slot_lt, decide_eq_true_eq, ← List.mem_toFinset,
    h.toFinset_slots, Finset.mem_range]

/-- The event of an assignment is the one that its record tells. -/
theorem Passed.event_eq (h : l.Passed past t) {output : Name} {c : Claim} {t' : SlotTable}
    (hclaim : t.Claimed past.length (l.lifetime output) c t') :
    (l.assignment past.length output c).event =
      (l.assignment past.length output c).record.boundEvent (recorded past) := by
  have hcandidates : c.candidates = (vacantSlots (recorded past)).card := by
    rw [hclaim.candidates_eq, h.length_free]
  show Event.valueBound past.length output c.slot c.reused c.candidates =
    Event.valueBound (recorded past).length output c.slot
      (c.slot ∈ (recorded past).map Record.slot) (vacantSlots (recorded past)).card
  rw [length_recorded, h.reused_eq hclaim, hcandidates]

/-- An earlier record has the slot of a claim exactly if there are vacant slots. -/
theorem Passed.slot_mem_iff (h : l.Passed past t) {lifetime : Lifetime} {c : Claim}
    {t' : SlotTable} (hclaim : t.Claimed past.length lifetime c t') :
    c.slot ∈ (recorded past).map Record.slot ↔ 0 < (vacantSlots (recorded past)).card := by
  have hreused := hclaim.reused_iff_candidates_pos
  rwa [h.reused_eq hclaim, decide_eq_true_eq, hclaim.candidates_eq, h.length_free] at hreused

/-! ## What is reported about a history -/

/-- **The events of a history are those that its records tell.** -/
theorem Passed.reverse_map_event (h : l.Passed past t) :
    (past.map Assignment.event).reverse =
      (cuts (recorded past)).map fun cut => cut.2.boundEvent cut.1 := by
  induction h with
  | start => rfl
  | assign h hclaim ih =>
      rw [List.map_cons, List.reverse_cons, ih, h.event_eq hclaim, recorded_cons, cuts_concat,
        List.map_append, List.map_singleton]

/-- **The slots that are reported as opened are numbered without gaps**, up to the size of the
table. -/
theorem Passed.filterMap_openedSlot? (h : l.Passed past t) :
    (past.map Assignment.event).reverse.filterMap Event.openedSlot? = List.range t.size := by
  induction h with
  | start => rfl
  | @assign past t t' output c h hclaim ih =>
      rw [List.map_cons, List.reverse_cons, List.filterMap_append, ih]
      -- Only a slot that is opened is reported, and only then the table grows.
      cases hclaim with
      | @reuse o slot hslot hfree hlatest =>
          show List.range t.occupants.length ++ [] = List.range (t.occupants.set slot _).length
          rw [List.append_nil, List.length_set]
      | fresh hfull =>
          show List.range t.occupants.length ++ [t.occupants.length] =
            List.range (t.occupants ++ [_]).length
          rw [List.length_append, List.length_singleton, List.range_succ]

end Liveness

namespace Schedule

/-- **The events of an allocation agree with its result.** There is one event for each record, in
their order, with the position, the value and the slot of the record. It says whether an earlier
record has the slot, which is the case exactly if slots were free, and how many were. The slots that
are reported as opened are numbered from zero without gaps, and are as many as the summary says and
as the allocation uses. -/
theorem Built.allocationEvents_tell_records {s : Schedule} (h : s.Built) (l : Liveness) :
    let a := s.allocateWith l
    s.allocationEvents l =
        (cuts a.records.values).map (fun (earlier, r) => r.boundEvent earlier) ++
          [.allocationComplete a.slotsUsed a.minSlots a.maxSlots] ∧
      (a.records.values.map Record.output = s.outputs ∧
        a.records.values.map Record.created = List.range s.size) ∧
      (∀ before r after, a.records.values = before ++ r :: after →
        (r.slot ∈ before.map Record.slot ↔ 0 < (vacantSlots before).card)) ∧
      (s.allocationEvents l).filterMap Event.openedSlot? = List.range a.slotsUsed := by
  intro a
  have hnodup := h.nodup_outputs
  have hpassed := s.passed_allocationPass l
  have hrecorded := recorded_allocationPass hnodup l
  have hsize : a.slotsUsed = (s.allocationPass l).table.size := slotsUsed_eq_size hnodup l
  refine ⟨?_, ⟨map_output_values hnodup l, map_created_values hnodup l⟩, ?_, ?_⟩
  · have hevents := hpassed.reverse_map_event
    rw [List.map_reverse, List.reverse_reverse, hrecorded] at hevents
    rw [allocationEvents, hevents, hsize]
    rfl
  · exact forall_records_of_claimed
      (P := fun before r => r.slot ∈ before.map Record.slot ↔ 0 < (vacantSlots before).card) hnodup
      fun hpassed hclaim => hpassed.slot_mem_iff hclaim
  · have hopened := hpassed.filterMap_openedSlot?
    rw [List.map_reverse, List.reverse_reverse] at hopened
    rw [allocationEvents, List.filterMap_append, hopened, hsize]
    exact List.append_nil _

/-- The order of a cycle that is cut, with last reads from elsewhere: `c` and `d` find two slots and
one slot free, and two slots are opened in all. -/
theorem Built.allocationEvents_tell_records_of_cycle :
    let s : Schedule := ⟨[⟨"a", ["b"]⟩, ⟨"b", ["a"]⟩, ⟨"c", ["b"]⟩, ⟨"d", ["c"]⟩]⟩
    let g : Graph := ⟨s.nodes, by decide, by decide⟩
    let l : Liveness := ⟨.ofList [("b", 0), ("c", 3), ("a", 1)]⟩
    g.sort .tolerate = .ok s ∧
      s.allocationEvents l =
        [.valueBound 0 "a" 0 false 0, .valueBound 1 "b" 1 false 0, .valueBound 2 "c" 1 true 2,
          .valueBound 3 "d" 0 true 1, .allocationComplete 2 2 5] ∧
      (s.allocationEvents l).filterMap Event.openedSlot? = [0, 1] := by
  intro s g l
  have hsort : g.sort .tolerate = .ok s := by decide +kernel
  have hused : (s.allocateWith l).slotsUsed = 2 := by decide
  obtain ⟨hevents, -, -, hopened⟩ := Built.allocationEvents_tell_records (.sorted hsort) l
  rw [hused] at hopened
  exact ⟨hsort, hevents.trans (by decide), hopened⟩

end Schedule

end SlotPlan
