import SlotPlan.Proofs.Graph.Rejecting
import SlotPlan.Proofs.Json.Layout
import SlotPlan.Wire.Allocation

/-!
# The schedules that can be built

A schedule comes about in a few ways only: it is checked, taken from a graph, sorted, or read from a
text (`Schedule.Built`). All of them but one give a valid schedule (`Schedule.BuiltUncut.valid`). Also
that one, which tolerates cycles, makes sure that no value is produced twice
(`Schedule.Built.nodup_outputs`).
-/

set_option autoImplicit false

namespace SlotPlan

namespace Schedule

/-- The ways to a schedule. -/
inductive Built : Schedule → Prop where
  /-- The schedule without operations. -/
  | empty : Built ⟨[]⟩
  /-- Operations that were found to be in a valid order. -/
  | validated {nodes : List Node} {s : Schedule} (h : Schedule.validated nodes = .ok s) : Built s
  /-- The operations of a graph as they are declared. -/
  | declared {g : Graph} {s : Schedule} (h : Schedule.declared g = .ok s) : Built s
  /-- The operations of a graph in a sorted order, under either policy. -/
  | sorted {g : Graph} {policy : CyclePolicy} {s : Schedule} (h : g.sort policy = .ok s) : Built s
  /-- A schedule that was read from a text. -/
  | decoded {text : String} {s : Schedule} (h : Json.Decoder.run decoder text = .ok s) : Built s
  /-- The schedule of a plan that was read from a text. -/
  | ofPlan {text : String} {p : Plan} (h : Json.Decoder.run Plan.decoder text = .ok p) :
      Built p.schedule

/-- The ways to a schedule that cut no cycles. -/
inductive BuiltUncut : Schedule → Prop where
  /-- The schedule without operations. -/
  | empty : BuiltUncut ⟨[]⟩
  /-- Operations that were found to be in a valid order. -/
  | validated {nodes : List Node} {s : Schedule} (h : Schedule.validated nodes = .ok s) :
      BuiltUncut s
  /-- The operations of a graph as they are declared. -/
  | declared {g : Graph} {s : Schedule} (h : Schedule.declared g = .ok s) : BuiltUncut s
  /-- The operations of a graph in a sorted order, where cycles are rejected. -/
  | sorted {g : Graph} {s : Schedule} (h : g.sort .reject = .ok s) : BuiltUncut s
  /-- A schedule that was read from a text. -/
  | decoded {text : String} {s : Schedule} (h : Json.Decoder.run decoder text = .ok s) :
      BuiltUncut s
  /-- The schedule of a plan that was read from a text. -/
  | ofPlan {text : String} {p : Plan} (h : Json.Decoder.run Plan.decoder text = .ok p) :
      BuiltUncut p.schedule

variable {s : Schedule}

/-! ## Schedules that are read -/

/-- A schedule is read like a list of operations, and validated. -/
theorem decoder_eq_ok_iff {d : Json.Doc} {nodes : List Node} :
    decoder d = .ok ⟨nodes⟩ ↔
      Json.Decoder.list Node.decoder d = .ok nodes ∧ validate ⟨nodes⟩ = .ok () := by
  rw [decoder, bind_eq_ok_iff]
  constructor
  · rintro ⟨nodes', hread, h⟩
    cases hvalidated : validated nodes' with
    | ok s =>
        rw [hvalidated] at h
        cases h
        obtain ⟨heq, hvalidate⟩ := validated_eq_ok_iff.1 hvalidated
        cases heq
        exact ⟨hread, hvalidate⟩
    | error e =>
        rw [hvalidated] at h
        cases h
  · rintro ⟨hread, hvalidate⟩
    exact ⟨nodes, hread, by rw [validated_eq_ok_iff.2 ⟨rfl, hvalidate⟩]; rfl⟩

/-- A schedule is only read if it is valid. -/
theorem valid_of_decoder {d : Json.Doc} (h : decoder d = .ok s) : s.Valid :=
  validate_eq_ok_iff.1 (decoder_eq_ok_iff.1 h).2

theorem valid_empty : Valid ⟨[]⟩ := by
  intro before n after h
  cases before <;> cases h

/-- The schedule of a plan is only read if it is valid, whatever the allocation. -/
theorem valid_of_planDecoder {d : Json.Doc} {p : Plan} (h : Plan.decoder d = .ok p) :
    p.schedule.Valid := by
  refine Json.Layout.decoder_keeps (P := fun p => p.schedule.Valid) valid_empty ?_ h
  intro f hf d put hread p hp
  rcases List.mem_cons.1 hf with rfl | hf
  · obtain ⟨s, hdecode, rfl⟩ := Json.Field.read_of_eq_ok_iff.1 hread
    exact valid_of_decoder hdecode
  · rw [List.mem_singleton.1 hf] at hread
    obtain ⟨a, -, rfl⟩ := Json.Field.read_of_eq_ok_iff.1 hread
    exact hp

/-! ## All schedules -/

/-- The only other way to a schedule is sorting where cycles are tolerated. -/
theorem built_iff_uncut_or_tolerated :
    s.Built ↔ s.BuiltUncut ∨ ∃ g, Graph.sort g .tolerate = .ok s := by
  constructor
  · intro h
    cases h with
    | empty => exact .inl .empty
    | validated h => exact .inl (.validated h)
    | declared h => exact .inl (.declared h)
    | @sorted g policy _ h =>
        cases policy with
        | reject => exact .inl (.sorted h)
        | tolerate => exact .inr ⟨g, h⟩
    | decoded h => exact .inl (.decoded h)
    | ofPlan h => exact .inl (.ofPlan h)
  · rintro (h | ⟨g, h⟩)
    · cases h with
      | empty => exact .empty
      | validated h => exact .validated h
      | declared h => exact .declared h
      | sorted h => exact .sorted h
      | decoded h => exact .decoded h
      | ofPlan h => exact .ofPlan h
    · exact .sorted h

/-- **Where no cycles are cut, schedules are valid.** -/
theorem BuiltUncut.valid (h : s.BuiltUncut) : s.Valid := by
  cases h with
  | empty => exact valid_empty
  | validated h => exact valid_of_validated h
  | declared h => exact valid_of_declared h
  | sorted h => exact Graph.valid_of_sort_reject h
  | decoded h =>
      obtain ⟨d, hd⟩ := Json.Decoder.exists_doc_of_run h
      exact valid_of_decoder hd
  | ofPlan h =>
      obtain ⟨d, hd⟩ := Json.Decoder.exists_doc_of_run h
      exact valid_of_planDecoder hd

/-- **No schedule that can be built produces a value twice.** -/
theorem Built.nodup_outputs (h : s.Built) : s.outputs.Nodup := by
  rcases built_iff_uncut_or_tolerated.1 h with huncut | ⟨g, hsort⟩
  · exact huncut.valid.nodup_outputs
  · exact Graph.nodup_outputs_of_sort hsort

end Schedule

end SlotPlan
