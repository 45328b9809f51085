import SlotPlan.Proofs.Plan.Bounds
import SlotPlan.Proofs.Plan.Lifetimes
import SlotPlan.Proofs.Wire.RoundTrip

/-!
# Which plans are read back

A plan is written as it is, but its schedule is only read if it is valid. So a plan is read back
unless cycles were tolerated in it, and then the reader reports where its schedule first breaks the
order (`Graph.run_render_of_plan`).
-/

set_option autoImplicit false

namespace SlotPlan

open Json

/-! ## The numbers of a plan -/

namespace Schedule

variable {s : Schedule}

/-- Values are last read at a position of the schedule. -/
theorem lastRead_lt_size {x : Name} {last : Nat} (h : s.liveness.lastRead? x = some last) :
    last < s.size :=
  lt_length_of_readAt (lastRead?_eq_some_iff.1 h).1

/-- Only the empty schedule has a lower bound that is greater than its upper bound. -/
theorem minSlots_le_max (s : Schedule) : s.allocate.minSlots ≤ max 1 s.allocate.maxSlots := by
  obtain ⟨nodes⟩ := s
  cases nodes with
  | nil => exact Nat.le_max_left 1 _
  | cons n rest =>
      have hle : width ⟨n :: rest⟩ + 1 ≤ size ⟨n :: rest⟩ + width ⟨n :: rest⟩ := by
        simp only [size, List.length_cons]
        omega
      exact Nat.le_trans hle (Nat.le_max_right 1 _)

/-- **The numbers of an allocation fit into words if the upper bound on the number of slots
does.** -/
theorem fitsWord_allocate (h : s.outputs.Nodup) (hword : IsWord s.allocate.maxSlots) :
    s.allocate.FitsWord := by
  have hposition : ∀ {n : Nat}, n < s.size → IsWord n := fun hn =>
    hword.of_le (Nat.le_trans (Nat.le_of_lt hn) (Nat.le_add_right s.size s.width))
  have hliveness : s.liveness.FitsWord := fun e he =>
    hposition (lastRead_lt_size (Roster.get?_eq_some_iff.2 he))
  refine ⟨?_, hliveness, ?_, hword⟩
  · intro e he
    have hr : e.2 ∈ s.allocate.records.values := List.mem_map_of_mem he
    refine ⟨?_, ?_, ?_⟩
    · exact hposition (Nat.lt_of_lt_of_le (slot_lt_slotsUsed h hr) (slotsUsed_le_size h _))
    · exact hposition (producedAt_of_mem_values h hr).lt_size
    · rw [lifetime_of_mem_values h hr, Liveness.lifetime]
      cases hlast : s.liveness.lastRead? e.2.output with
      | some last => exact hposition (lastRead_lt_size hlast)
      | none => trivial
  · exact IsWord.of_le (Nat.max_lt.2 ⟨by decide, hword⟩) s.minSlots_le_max

end Schedule

/-! ## Reading a plan -/

namespace Plan

variable {p : Plan}

/-- A plan with a valid schedule is read back, whatever its allocation is. -/
theorem reads_encode (hallocation : p.allocation.FitsWord) (h : p.schedule.validate = .ok ()) :
    decoder.Reads p.encode p :=
  Layout.Fills.reads (by decide) (.cons (Schedule.reads_encode h)
    (.cons (Allocation.reads_encode hallocation) (.nil p)))

/-- A plan whose schedule is not valid is refused, with the error of the validation. -/
theorem run_render_of_error (hallocation : p.allocation.FitsWord) {e : Error}
    (h : p.schedule.validate = .error e) :
    decoder.run p.encode.render = .error (.rejected e) := by
  have hschedule : Schedule.decoder p.schedule.encode = .error (.rejected e) := by
    rw [Schedule.decoder_encode, Schedule.validated_eq_error_iff.2 h, Except.mapError]
  have hwritten : p.encode.Written := by
    refine .fields (List.forall_mem_cons.2 ⟨p.schedule.written_encode, ?_⟩)
    exact List.forall_mem_singleton.2 (Allocation.reads_encode hallocation).written
  rw [hwritten.spelled_render.run]
  refine Layout.decoder_fields_of_error (l := layout) rfl ?_ _
  show (Schedule.decoder p.schedule.encode).map _ = _
  rw [hschedule, Except.map]

end Plan

/-! ## Plans of graphs -/

/-- The operation that produces `node` is the first one that comes before one of its inputs, and
`input` is the first input that it comes before. -/
def Schedule.FirstMisplaced (s : Schedule) (node input : Name) : Prop :=
  ∃ before n after earlier later, s.nodes = before ++ n :: after ∧ Valid ⟨before⟩ ∧
    n.output = node ∧ n.inputs = earlier ++ input :: later ∧
    (∀ x ∈ earlier, x ∈ before.map Node.output) ∧ input ∈ (n :: after).map Node.output

namespace Graph

variable {g : Graph} {config : Config}

/-- In the schedule of a plan nothing else can be wrong than the order. -/
theorem exists_firstMisplaced_of_schedule {s : Schedule} (h : g.schedule config = .ok s)
    (hvalidate : s.validate ≠ .ok ()) :
    ∃ node input, s.FirstMisplaced node input ∧
      s.validate = .error (.outOfOrder node input) := by
  cases herror : s.validate with
  | ok u => exact absurd herror hvalidate
  | error e =>
      obtain ⟨before, n, after, hsplit, hbefore, hfault⟩ := Schedule.validate_eq_error_iff.1 herror
      cases hfault with
      | @outOfOrder earlier later input hinputs hearlier hmissing =>
          have hn : n ∈ s.nodes := hsplit ▸ List.mem_append_right _ List.mem_cons_self
          have hinput : input ∈ n.inputs := hinputs ▸ List.mem_append_right _ List.mem_cons_self
          have hproduced := mem_outputs_of_schedule h hn hinput
          rw [Schedule.outputs, hsplit, List.map_append] at hproduced
          exact ⟨n.output, input, ⟨before, n, after, earlier, later, hsplit, hbefore, rfl, hinputs,
            hearlier, (List.mem_append.1 hproduced).resolve_left hmissing⟩, rfl⟩
      | duplicateOutput _ hrepeated =>
          have hnodup := (built_of_schedule h).nodup_outputs
          exact absurd hrepeated (Schedule.not_mem_before_of_nodup hnodup hsplit)

/-- **A plan is read back from its text if and only if its schedule is valid**, and it is unless cycles
are tolerated. Otherwise the reader reports the first operation that comes before one of its
inputs. A word has to hold the upper bound on the number of slots; then words hold all numbers of the
plan. -/
theorem run_render_of_plan {p : Plan} (h : g.plan config = .ok p)
    (hword : IsWord p.allocation.maxSlots) :
    (Plan.decoder.run p.encode.render = .ok p ↔ p.schedule.validate = .ok ()) ∧
      (config.cycles = .reject ∨ config.order = .declared → p.schedule.validate = .ok ()) ∧
      (p.schedule.validate ≠ .ok () → ∃ node input, p.schedule.FirstMisplaced node input ∧
        p.schedule.validate = .error (.outOfOrder node input) ∧
        Plan.decoder.run p.encode.render = .error (.rejected (.outOfOrder node input)) ∧
        Mismatch.message (.rejected (.outOfOrder node input)) =
          "node '" ++ node ++ "' is ordered before its input '" ++ input ++ "'") := by
  obtain ⟨s, hs, rfl⟩ := exists_of_plan h
  have hallocation := Schedule.fitsWord_allocate (built_of_schedule hs).nodup_outputs hword
  refine ⟨⟨?_, ?_⟩, ?_, ?_⟩
  · intro hrun
    cases hvalidate : s.validate with
    | ok u => rfl
    | error e =>
        rw [Plan.run_render_of_error hallocation hvalidate] at hrun
        cases hrun
  · intro hvalidate
    exact (Plan.reads_encode hallocation hvalidate).run
  · intro hconfig
    exact Schedule.validate_eq_ok_iff.2 (valid_of_schedule hs hconfig)
  · intro hvalidate
    obtain ⟨node, input, hfirst, herror⟩ := exists_firstMisplaced_of_schedule hs hvalidate
    exact ⟨node, input, hfirst, herror, Plan.run_render_of_error hallocation herror, rfl⟩

/-- The schedule of the chain is valid. In the cycle of `a` and `b`, which is cut at `a`, the operation
of `b` comes before its second input. -/
theorem run_render_of_plan_of_cycle :
    let s : Schedule := ⟨[⟨"k", []⟩, ⟨"out", ["k", "k"]⟩]⟩
    let g : Graph := ⟨s.nodes.reverse, by decide, by decide⟩
    let p : Plan := ⟨s, s.allocate⟩
    let s' : Schedule := ⟨[⟨"k", []⟩, ⟨"b", ["k", "a"]⟩, ⟨"a", ["b", "a"]⟩, ⟨"out", ["a"]⟩]⟩
    let g' : Graph := ⟨s'.nodes.reverse, by decide, by decide⟩
    let p' : Plan := ⟨s', s'.allocate⟩
    g.plan {} = .ok p ∧ IsWord p.allocation.maxSlots ∧ Plan.decoder.run p.encode.render = .ok p ∧
      g'.plan { cycles := .tolerate } = .ok p' ∧ IsWord p'.allocation.maxSlots ∧
      Plan.decoder.run p'.encode.render = .error (.rejected (.outOfOrder "b" "a")) := by
  intro s g p s' g' p'
  have hsort : g.sort .reject = .ok s := by decide +kernel
  have hplan : g.plan {} = .ok p := plan_of_schedule hsort
  have hsort' : g'.sort .tolerate = .ok s' := by decide +kernel
  have hplan' : g'.plan { cycles := .tolerate } = .ok p' := plan_of_schedule hsort'
  have hword : IsWord p.allocation.maxSlots := by decide
  have hword' : IsWord p'.allocation.maxSlots := by decide
  obtain ⟨hiff, hvalid, -⟩ := run_render_of_plan hplan hword
  obtain ⟨-, -, hrefused⟩ := run_render_of_plan hplan' hword'
  refine ⟨hplan, hword, hiff.2 (hvalid (.inl rfl)), hplan', hword', ?_⟩
  have hvalidate : s'.validate = .error (.outOfOrder "b" "a") := by decide
  obtain ⟨node, input, -, herror, hrun, -⟩ := hrefused fun hok => by
    rw [hvalidate] at hok
    cases hok
  rw [hvalidate] at herror
  cases herror
  exact hrun

end Graph

end SlotPlan
