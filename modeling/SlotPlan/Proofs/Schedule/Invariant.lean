import SlotPlan.Proofs.Allocation.Pass
import SlotPlan.Proofs.Graph.Tolerating
import SlotPlan.Proofs.Schedule.Built
import SlotPlan.Proofs.Schedule.Declared
import SlotPlan.Proofs.Wire.RoundTrip

/-!
# What every schedule keeps

Whichever way a schedule comes about, it produces no value twice, and it produces everything that it
reads (`Schedule.Built.mem_outputs_of_mem_inputs`). So its operations form a graph again, and an
allocation for it has one record for each of them (`Schedule.size_allocateWith`). Where no cycles are
tolerated, it is valid on top of that (`Schedule.representation_invariant`).

A text holds a schedule exactly if it holds a list of operations that passes validation
(`Schedule.run_decoder_eq_ok_iff`); a list that does not pass is refused with what the validation
reports (`Schedule.run_decoder_of_error`).
-/

set_option autoImplicit false

namespace SlotPlan

namespace Schedule

variable {s : Schedule}

/-! ## Schedules that can be built -/

/-- **What a schedule reads, it produces**, also where cycles are cut. -/
theorem Built.mem_outputs_of_mem_inputs (h : s.Built) {n : Node} (hn : n ∈ s.nodes) {x : Name}
    (hx : x ∈ n.inputs) : x ∈ s.outputs := by
  rcases built_iff_uncut_or_tolerated.1 h with huncut | ⟨g, hsort⟩
  · exact huncut.valid.mem_outputs_of_mem_inputs hn hx
  · exact Graph.mem_outputs_of_mem_inputs hsort hn hx

/-- If no value is produced twice, every operation has its own record. -/
theorem size_allocateWith (h : s.outputs.Nodup) (l : Liveness) :
    (s.allocateWith l).size = s.size := by
  rw [Allocation.size, Roster.size, entries_allocateWith h, List.length_map, length_assignments]

/-! ## Schedules that are read -/

/-- **A text holds a schedule exactly if it holds a list of operations that passes validation.** -/
theorem run_decoder_eq_ok_iff {text : String} {nodes : List Node} :
    Json.Decoder.run decoder text = .ok ⟨nodes⟩ ↔
      Json.Decoder.run (Json.Decoder.list Node.decoder) text = .ok nodes ∧
        validate ⟨nodes⟩ = .ok () := by
  rw [Json.Decoder.run_eq_ok_iff, Json.Decoder.run_eq_ok_iff, decoder_eq_ok_iff, and_right_comm]

/-- A list of operations that does not pass validation is refused with what validation reports. -/
theorem run_decoder_of_error {text : String} {nodes : List Node} {e : Error}
    (hread : Json.Decoder.run (Json.Decoder.list Node.decoder) text = .ok nodes)
    (h : validate ⟨nodes⟩ = .error e) :
    Json.Decoder.run decoder text = .error (.rejected e) := by
  apply Json.Decoder.run_of_error
  rw [decoder, (Json.Decoder.run_eq_ok_iff.1 hread).1]
  show (validated nodes).mapError Json.Mismatch.rejected = _
  rw [validated_eq_error_iff.2 h, Except.mapError]

/-! ## All ways together -/

/-- **Every schedule that can be built produces no value twice and everything that it reads**, so its
operations have a graph and an allocation has a record for each of them. It is valid unless cycles were
tolerated in it. A text is read as a schedule exactly if it is read as a list of operations and these
pass validation; if they do not, it is refused with the text of what validation reports. -/
theorem representation_invariant :
    (∀ s : Schedule, s.Built → s.outputs.Nodup ∧ (∀ n ∈ s.nodes, ∀ x ∈ n.inputs, x ∈ s.outputs) ∧
        (∃ g, Graph.build s.nodes = .ok g) ∧ ∀ l, (s.allocateWith l).size = s.size) ∧
      (∀ s : Schedule, s.Built ↔ s.BuiltUncut ∨ ∃ g, Graph.sort g .tolerate = .ok s) ∧
      (∀ s : Schedule, s.BuiltUncut → s.validate = .ok ()) ∧
      (∀ text nodes, Json.Decoder.run decoder text = .ok ⟨nodes⟩ ↔
        Json.Decoder.run (Json.Decoder.list Node.decoder) text = .ok nodes ∧
          validate ⟨nodes⟩ = .ok ()) ∧
      ∀ text nodes e, Json.Decoder.run (Json.Decoder.list Node.decoder) text = .ok nodes →
        validate ⟨nodes⟩ = .error e →
          Json.Decoder.run decoder text = .error (.rejected e) ∧
            Json.Mismatch.message (.rejected e) = e.message := by
  refine ⟨?_, fun _ => built_iff_uncut_or_tolerated, fun _ h => validate_eq_ok_iff.2 h.valid,
    fun _ _ => run_decoder_eq_ok_iff, fun _ _ _ hread h => ⟨run_decoder_of_error hread h, rfl⟩⟩
  intro s h
  have hnodup := h.nodup_outputs
  have hclosed : ∀ n ∈ s.nodes, ∀ x ∈ n.inputs, x ∈ s.outputs := fun _ hn _ hx =>
    h.mem_outputs_of_mem_inputs hn hx
  exact ⟨hnodup, hclosed, Graph.exists_build_iff.2 ⟨hnodup, hclosed⟩, size_allocateWith hnodup⟩

/-- The cycle of `a` and `b` is cut at `b`, which runs before `a`. The schedule has a graph and all its
records, but it is refused when it is read, unlike the chain. -/
theorem representation_invariant_of_cycle :
    let s : Schedule := ⟨[⟨"b", ["a"]⟩, ⟨"a", ["b"]⟩, ⟨"out", ["a", "a"]⟩]⟩
    let g : Graph := ⟨s.nodes.reverse, by decide, by decide⟩
    let chain : Schedule := ⟨[⟨"k", []⟩, ⟨"out", ["k", "k"]⟩]⟩
    g.sort .tolerate = .ok s ∧ (∃ g', Graph.build s.nodes = .ok g') ∧ s.allocate.size = 3 ∧
      Json.Decoder.run decoder s.encode.render = .error (.rejected (.outOfOrder "b" "a")) ∧
      Json.Decoder.run decoder chain.encode.render = .ok chain ∧ chain.validate = .ok () := by
  intro s g chain
  obtain ⟨hbuilt, -, huncut, hread, hrefused⟩ := representation_invariant
  have hsort : g.sort .tolerate = .ok s := by decide +kernel
  obtain ⟨-, -, hgraph, hsize⟩ := hbuilt s (.sorted hsort)
  have hfault : s.validate = .error (.outOfOrder "b" "a") := by decide
  have hchain : Json.Decoder.run decoder chain.encode.render = .ok chain :=
    (hread _ _).2 ⟨(Node.reads_list chain.nodes).run, by decide⟩
  exact ⟨hsort, hgraph, hsize _, (hrefused _ _ _ (Node.reads_list s.nodes).run hfault).1, hchain,
    huncut chain (.decoded hchain)⟩

end Schedule

end SlotPlan
