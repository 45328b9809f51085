import SlotPlan.Proofs.Graph.Building

/-!
# Checking operations with a graph and without one

Operations in a valid order have a graph (`Schedule.Valid.exists_build`), so checking their order needs
no graph to be built first. Without one, missing inputs and repeated outputs are met in the order in
which the operations run; a repeated output is only reported if nothing is out of order up to it, and
then it is the one that building the graph reports (`Schedule.firstRepeat_of_validated`). So the two
checks accept the same operations, and what they report differs only where there is no graph
(`Schedule.validated_agrees_with_build`).
-/

set_option autoImplicit false

namespace SlotPlan

namespace Schedule

variable {nodes : List Node}

/-- Operations in a valid order have a graph. -/
theorem Valid.exists_build {s : Schedule} (h : s.Valid) : ∃ g, Graph.build s.nodes = .ok g :=
  Graph.exists_build_iff.2
    ⟨h.nodup_outputs, fun _ hn _ hx => h.mem_outputs_of_mem_inputs hn hx⟩

/-- With a graph the operations are checked as they are declared. -/
theorem validated_eq_declared {g : Graph} (h : Graph.build nodes = .ok g) :
    validated nodes = declared g := by
  rw [← Graph.build_eq_ok_iff.1 h]
  rfl

/-- A repeated output that a check of the order reports is the first one in the list. -/
theorem firstRepeat_of_validated {output : Name}
    (h : validated nodes = .error (.duplicateOutput output)) :
    Graph.FirstRepeat nodes output := by
  obtain ⟨before, n, after, hsplit, hbefore, hfault⟩ :=
    validate_eq_error_iff.1 (validated_eq_error_iff.1 h)
  cases hfault with
  | duplicateOutput _ hrepeated =>
      exact ⟨before, n, after, hsplit, hbefore.nodup_outputs, hrepeated, rfl⟩

/-- What a check of the order comes to: it succeeds and there is a graph, or something is out of order,
or it reports the same repeated output as building the graph. -/
theorem validated_cases (nodes : List Node) :
    (validated nodes = .ok ⟨nodes⟩ ∧ ∃ g, Graph.build nodes = .ok g) ∨
      (∃ node input, validated nodes = .error (.outOfOrder node input)) ∨
      ∃ output, validated nodes = .error (.duplicateOutput output) ∧
        Graph.build nodes = .error (.duplicateOutput output) := by
  cases hvalidated : validated nodes with
  | ok s =>
      obtain ⟨rfl, -⟩ := validated_eq_ok_iff.1 hvalidated
      exact .inl ⟨rfl, (valid_of_validated hvalidated).exists_build⟩
  | error e =>
      obtain ⟨before, n, after, -, -, hfault⟩ :=
        validate_eq_error_iff.1 (validated_eq_error_iff.1 hvalidated)
      cases hfault with
      | outOfOrder => exact .inr (.inl ⟨_, _, rfl⟩)
      | duplicateOutput =>
          have hfirst := firstRepeat_of_validated hvalidated
          exact .inr (.inr ⟨_, rfl, Graph.build_eq_duplicateOutput_iff.2 hfirst⟩)

/-- **The two checks agree.** Operations are in a valid order exactly if they have a graph and its
declared order is accepted; the schedule has these operations either way. If they have a graph, both
checks give the same result, and only the order can be wrong. If an input is unknown, it is reported
as out of order; if an output is repeated, the same output is reported, or something else that is out
of order. -/
theorem validated_agrees_with_build (nodes : List Node) :
    (∀ s, validated nodes = .ok s ↔ ∃ g, Graph.build nodes = .ok g ∧ declared g = .ok s) ∧
      (∀ s, validated nodes = .ok s → s.nodes = nodes) ∧
      (∀ g, Graph.build nodes = .ok g → validated nodes = declared g ∧
        ∀ e, validated nodes = .error e → ∃ node input, e = .outOfOrder node input) ∧
      (∀ node input, Graph.build nodes = .error (.unknownInput node input) →
        ∃ node' input', validated nodes = .error (.outOfOrder node' input')) ∧
      ∀ output, Graph.build nodes = .error (.duplicateOutput output) →
        validated nodes = .error (.duplicateOutput output) ∨
          ∃ node input, validated nodes = .error (.outOfOrder node input) := by
  refine ⟨?accepted, ?operations, ?graph, ?unknown, ?repeated⟩
  case accepted =>
    intro s
    constructor
    · intro hvalidated
      obtain ⟨g, hbuild⟩ : ∃ g, Graph.build nodes = .ok g := by
        obtain ⟨rfl, -⟩ := validated_eq_ok_iff.1 hvalidated
        exact (valid_of_validated hvalidated).exists_build
      exact ⟨g, hbuild, validated_eq_declared hbuild ▸ hvalidated⟩
    · rintro ⟨g, hbuild, hs⟩
      rw [validated_eq_declared hbuild, hs]
  case operations =>
    intro s hvalidated
    rw [(validated_eq_ok_iff.1 hvalidated).1]
  case graph =>
    intro g hbuild
    refine ⟨validated_eq_declared hbuild, fun e herror => ?_⟩
    rcases validated_cases nodes with ⟨hok, -⟩ | ⟨node, input, horder⟩ | ⟨output, -, hrepeated⟩
    · cases herror.symm.trans hok
    · exact ⟨node, input, Except.error.inj (herror.symm.trans horder)⟩
    · cases hbuild.symm.trans hrepeated
  case unknown =>
    intro node input hbuild
    rcases validated_cases nodes with ⟨-, g, hok⟩ | horder | ⟨output, -, hrepeated⟩
    · cases hbuild.symm.trans hok
    · exact horder
    · cases hbuild.symm.trans hrepeated
  case repeated =>
    intro output hbuild
    rcases validated_cases nodes with ⟨-, g, hok⟩ | horder | ⟨output', hvalidated, hrepeated⟩
    · cases hbuild.symm.trans hok
    · exact .inr horder
    · cases hbuild.symm.trans hrepeated
      exact .inl hvalidated

/-- The four ways in which the checks come out: both accept, only the order is wrong, an input is
unknown, and an output is repeated, once in front of an input that is unknown and once behind it. -/
theorem validated_agrees_with_build_of_faults :
    let valid : List Node := [⟨"a", []⟩, ⟨"b", ["a", "a"]⟩]
    let backwards : List Node := [⟨"b", ["a", "b"]⟩, ⟨"a", []⟩]
    let unknown : List Node := [⟨"a", []⟩, ⟨"b", ["a", "z"]⟩]
    let repeated : List Node := [⟨"a", []⟩, ⟨"a", ["a"]⟩, ⟨"b", ["z"]⟩]
    let behind : List Node := [⟨"b", ["z"]⟩, ⟨"a", []⟩, ⟨"a", ["a"]⟩]
    (∃ g, Graph.build valid = .ok g ∧ declared g = .ok ⟨valid⟩) ∧
      (∃ g, Graph.build backwards = .ok g ∧ validated backwards = declared g ∧
        validated backwards = .error (.outOfOrder "b" "a")) ∧
      (Graph.build unknown = .error (.unknownInput "b" "z") ∧
        ∃ node input, validated unknown = .error (.outOfOrder node input)) ∧
      (Graph.build repeated = .error (.duplicateOutput "a") ∧
        validated repeated = .error (.duplicateOutput "a")) ∧
      Graph.build behind = .error (.duplicateOutput "a") ∧
        ∃ node input, validated behind = .error (.outOfOrder node input) := by
  intro valid backwards unknown repeated behind
  obtain ⟨hvalid, -⟩ := validated_agrees_with_build valid
  obtain ⟨-, -, hbackwards, -⟩ := validated_agrees_with_build backwards
  obtain ⟨-, -, -, hunknown, -⟩ := validated_agrees_with_build unknown
  obtain ⟨-, -, -, -, hrepeated⟩ := validated_agrees_with_build repeated
  obtain ⟨-, -, -, -, hbehind⟩ := validated_agrees_with_build behind
  have hdangling : Graph.build unknown = .error (.unknownInput "b" "z") := by decide
  have hrepeat : Graph.build repeated = .error (.duplicateOutput "a") := by decide
  have hrepeat' : Graph.build behind = .error (.duplicateOutput "a") := by decide
  refine ⟨(hvalid ⟨valid⟩).1 (by decide), ?_, ⟨hdangling, hunknown "b" "z" hdangling⟩,
    ⟨hrepeat, ?_⟩, hrepeat', ?_⟩
  · obtain ⟨g, hbuild⟩ : ∃ g, Graph.build backwards = .ok g :=
      Graph.exists_build_iff.2 ⟨by decide, by decide⟩
    exact ⟨g, hbuild, (hbackwards g hbuild).1, by decide⟩
  · refine (hrepeated "a" hrepeat).resolve_right ?_
    rintro ⟨node, input, horder⟩
    have hvalidated : validated repeated = .error (.duplicateOutput "a") := by decide
    cases horder.symm.trans hvalidated
  · refine (hbehind "a" hrepeat').resolve_left ?_
    decide

end Schedule

end SlotPlan
