import Mathlib.Data.List.Nodup
import SlotPlan.Schedule

/-!
# What a valid schedule promises

A schedule is valid when at every cut of it the operation behind the cut reads only what was produced
before the cut, and produces something new (`Schedule.Valid`). Validation decides exactly this
(`Schedule.validate_eq_ok_iff`), and reports the first operation for which it fails
(`Schedule.validate_eq_error_iff`). So in a valid schedule no value is produced twice
(`Schedule.Valid.nodup_outputs`), and a value that is read stands before its reader
(`Schedule.Valid.idxOf_lt_idxOf`).
-/

set_option autoImplicit false

namespace SlotPlan

namespace Schedule

/-- Wherever a schedule is cut, the operation behind the cut reads only values that were produced
before the cut, and produces none of them again. -/
def Valid (s : Schedule) : Prop :=
  ∀ before n after, s.nodes = before ++ n :: after →
    (∀ x ∈ n.inputs, x ∈ before.map Node.output) ∧ n.output ∉ before.map Node.output

/-! ## Validation -/

/-- The operation `n` cannot run when the values `produced` are there, for the reason `e`: its first
input that is not there, or else its output if that is there already. -/
inductive Fault (produced : List Name) (n : Node) : Error → Prop where
  /-- The operation comes before one of its inputs. -/
  | outOfOrder {earlier later : List Name} {input : Name}
      (hinputs : n.inputs = earlier ++ input :: later) (hearlier : ∀ x ∈ earlier, x ∈ produced)
      (hmissing : input ∉ produced) : Fault produced n (.outOfOrder n.output input)
  /-- The operation produces a value again. -/
  | duplicateOutput (hinputs : ∀ x ∈ n.inputs, x ∈ produced) (hrepeated : n.output ∈ produced) :
      Fault produced n (.duplicateOutput n.output)

/-- An operation that cannot run misses an input, or its output is there already. -/
theorem Fault.not_new {produced : List Name} {n : Node} {e : Error} (h : Fault produced n e) :
    ¬ ((∀ x ∈ n.inputs, x ∈ produced) ∧ n.output ∉ produced) := by
  rintro ⟨hinputs, hnew⟩
  cases h with
  | outOfOrder hsplit _ hmissing =>
      exact hmissing (hinputs _ (hsplit ▸ List.mem_append_right _ List.mem_cons_self))
  | duplicateOutput _ hrepeated => exact hnew hrepeated

theorem find?_missing_eq_none {produced inputs : List Name} (h : ∀ x ∈ inputs, x ∈ produced) :
    inputs.find? (· ∉ produced) = none :=
  List.find?_eq_none.2 (by simpa using h)

theorem checkFrom_of_fault {produced : List Name} {n : Node} {e : Error} (h : Fault produced n e)
    (rest : List Node) : checkFrom produced (n :: rest) = .error e := by
  cases h with
  | outOfOrder hinputs hearlier hmissing =>
      have hfind := List.find?_eq_some_iff_append (p := (· ∉ produced)).2
        ⟨by simpa using hmissing, _, _, hinputs, by simpa using hearlier⟩
      rw [checkFrom, hfind]
  | duplicateOutput hinputs hrepeated =>
      rw [checkFrom, find?_missing_eq_none hinputs]
      exact if_pos hrepeated

theorem checkFrom_of_new {produced : List Name} {n : Node} (hinputs : ∀ x ∈ n.inputs, x ∈ produced)
    (hnew : n.output ∉ produced) (rest : List Node) :
    checkFrom produced (n :: rest) = checkFrom (n.output :: produced) rest := by
  rw [checkFrom, find?_missing_eq_none hinputs]
  exact if_neg hnew

/-- An operation can run, or there is a reason why it cannot. -/
theorem fault_or_new (produced : List Name) (n : Node) :
    (∃ e, Fault produced n e) ∨ (∀ x ∈ n.inputs, x ∈ produced) ∧ n.output ∉ produced := by
  cases hfind : n.inputs.find? (· ∉ produced) with
  | some input =>
      obtain ⟨hmissing, earlier, later, hinputs, hearlier⟩ := List.find?_eq_some_iff_append.1 hfind
      exact .inl ⟨_, .outOfOrder hinputs (by simpa using hearlier) (by simpa using hmissing)⟩
  | none =>
      have hinputs : ∀ x ∈ n.inputs, x ∈ produced := by simpa using hfind
      by_cases hout : n.output ∈ produced
      · exact .inl ⟨_, .duplicateOutput hinputs hout⟩
      · exact .inr ⟨hinputs, hout⟩

theorem checkFrom_cons_eq_ok_iff {produced : List Name} {n : Node} {rest : List Node} :
    checkFrom produced (n :: rest) = .ok () ↔
      (∀ x ∈ n.inputs, x ∈ produced) ∧ n.output ∉ produced ∧
        checkFrom (n.output :: produced) rest = .ok () := by
  rcases fault_or_new produced n with ⟨e, hfault⟩ | ⟨hinputs, hnew⟩
  · rw [checkFrom_of_fault hfault]
    refine iff_of_false (fun h => nomatch h) ?_
    rintro ⟨hinputs, hnew, -⟩
    exact hfault.not_new ⟨hinputs, hnew⟩
  · rw [checkFrom_of_new hinputs hnew]
    exact ⟨fun h => ⟨hinputs, hnew, h⟩, fun h => h.2.2⟩

theorem checkFrom_eq_ok_iff {nodes : List Node} :
    ∀ {produced : List Name}, checkFrom produced nodes = .ok () ↔
      ∀ before n after, nodes = before ++ n :: after →
        (∀ x ∈ n.inputs, x ∈ before.map Node.output ∨ x ∈ produced) ∧
          n.output ∉ before.map Node.output ∧ n.output ∉ produced := by
  induction nodes with
  | nil =>
      intro produced
      refine iff_of_true rfl fun before n after h => ?_
      cases before <;> cases h
  | cons m rest ih =>
      intro produced
      rw [checkFrom_cons_eq_ok_iff, ih]
      -- A cut comes before the first operation, or it cuts the rest behind it.
      constructor
      · rintro ⟨hinputs, hout, hrest⟩ before n after h
        cases before with
        | nil =>
            cases h
            exact ⟨fun x hx => .inr (hinputs x hx), List.not_mem_nil, hout⟩
        | cons b before =>
            cases h
            obtain ⟨hreads, hnew, hfresh⟩ := hrest before n after rfl
            rw [List.mem_cons, not_or] at hfresh
            refine ⟨fun x hx => ?_, ?_, hfresh.2⟩
            · rcases hreads x hx with hx | hx
              · exact .inl (List.mem_cons_of_mem _ hx)
              · rcases List.mem_cons.1 hx with rfl | hx
                · exact .inl List.mem_cons_self
                · exact .inr hx
            · rw [List.map_cons, List.mem_cons, not_or]
              exact ⟨hfresh.1, hnew⟩
      · intro h
        obtain ⟨hreads, -, hout⟩ := h [] m rest rfl
        refine ⟨fun x hx => (hreads x hx).resolve_left List.not_mem_nil, hout, ?_⟩
        intro before n after hsplit
        obtain ⟨hreads, hnew, hfresh⟩ := h (m :: before) n after (by rw [hsplit]; rfl)
        rw [List.map_cons, List.mem_cons, not_or] at hnew
        refine ⟨fun x hx => ?_, hnew.2, ?_⟩
        · rcases hreads x hx with hx | hx
          · rcases List.mem_cons.1 hx with rfl | hx
            · exact .inr List.mem_cons_self
            · exact .inl hx
          · exact .inr (List.mem_cons_of_mem _ hx)
        · rw [List.mem_cons, not_or]
          exact ⟨hnew.1, hfresh⟩

/-- **Validation accepts exactly the valid schedules.** -/
theorem validate_eq_ok_iff {s : Schedule} : s.validate = .ok () ↔ s.Valid := by
  rw [validate, checkFrom_eq_ok_iff]
  simp only [List.not_mem_nil, or_false, not_false_eq_true, and_true, Valid]

/-! ## What validation reports -/

/-- Validation fails at the first operation that cannot run. -/
theorem checkFrom_eq_error_iff {nodes : List Node} {e : Error} :
    ∀ {produced : List Name}, checkFrom produced nodes = .error e ↔
      ∃ before n after, nodes = before ++ n :: after ∧ checkFrom produced before = .ok () ∧
        Fault ((before.map Node.output).reverse ++ produced) n e := by
  induction nodes with
  | nil =>
      intro produced
      refine iff_of_false (fun h => nomatch h) ?_
      rintro ⟨before, n, after, h, -⟩
      cases before <;> cases h
  | cons m rest ih =>
      intro produced
      rcases fault_or_new produced m with ⟨e', hfault⟩ | ⟨hinputs, hnew⟩
      · -- The first operation fails, so nothing comes before the one that fails.
        rw [checkFrom_of_fault hfault]
        constructor
        · intro h
          cases h
          exact ⟨[], m, rest, rfl, rfl, hfault⟩
        · rintro ⟨before, n, after, hsplit, hbefore, hfault'⟩
          cases before with
          | nil =>
              cases hsplit
              rw [← checkFrom_of_fault hfault rest]
              exact checkFrom_of_fault hfault' rest
          | cons b before =>
              cases hsplit
              rw [checkFrom_of_fault hfault] at hbefore
              cases hbefore
      · rw [checkFrom_of_new hinputs hnew, ih]
        constructor
        · rintro ⟨before, n, after, rfl, hbefore, hfault⟩
          refine ⟨m :: before, n, after, rfl, ?_, ?_⟩
          · rwa [checkFrom_of_new hinputs hnew]
          · rwa [List.map_cons, List.reverse_cons, List.append_assoc, List.singleton_append]
        · rintro ⟨before, n, after, hsplit, hbefore, hfault⟩
          cases before with
          | nil =>
              cases hsplit
              exact absurd ⟨hinputs, hnew⟩ hfault.not_new
          | cons b before =>
              cases hsplit
              rw [checkFrom_of_new hinputs hnew] at hbefore
              rw [List.map_cons, List.reverse_cons, List.append_assoc,
                List.singleton_append] at hfault
              exact ⟨before, n, after, rfl, hbefore, hfault⟩

theorem Fault.congr {produced produced' : List Name} (hiff : ∀ x, x ∈ produced ↔ x ∈ produced')
    {n : Node} {e : Error} (h : Fault produced n e) : Fault produced' n e := by
  cases h with
  | outOfOrder hinputs hearlier hmissing =>
      exact .outOfOrder hinputs (fun x hx => (hiff x).1 (hearlier x hx)) (mt (hiff _).2 hmissing)
  | duplicateOutput hinputs hrepeated =>
      exact .duplicateOutput (fun x hx => (hiff x).1 (hinputs x hx)) ((hiff _).1 hrepeated)

/-- **Validation reports the first operation that breaks the order**, and what is wrong with it. -/
theorem validate_eq_error_iff {s : Schedule} {e : Error} :
    s.validate = .error e ↔ ∃ before n after, s.nodes = before ++ n :: after ∧ Valid ⟨before⟩ ∧
      Fault (before.map Node.output) n e := by
  have hproduced : ∀ (before : List Node) (x : Name),
      x ∈ (before.map Node.output).reverse ++ [] ↔ x ∈ before.map Node.output := fun before x => by
    rw [List.append_nil, List.mem_reverse]
  rw [validate, checkFrom_eq_error_iff]
  constructor
  · rintro ⟨before, n, after, hsplit, hbefore, hfault⟩
    exact ⟨before, n, after, hsplit, validate_eq_ok_iff.1 hbefore, hfault.congr (hproduced before)⟩
  · rintro ⟨before, n, after, hsplit, hbefore, hfault⟩
    exact ⟨before, n, after, hsplit, validate_eq_ok_iff.2 hbefore,
      hfault.congr fun x => (hproduced before x).symm⟩

/-! ## Checked schedules -/

theorem valid_of_validated {nodes : List Node} {s : Schedule} (h : validated nodes = .ok s) :
    s.Valid := by
  obtain ⟨rfl, hvalidate⟩ := validated_eq_ok_iff.1 h
  exact validate_eq_ok_iff.1 hvalidate

theorem validated_eq_error_iff {nodes : List Node} {e : Error} :
    validated nodes = .error e ↔ validate ⟨nodes⟩ = .error e := by
  rw [validated]
  cases validate ⟨nodes⟩ with
  | ok u => exact iff_of_false (fun h => nomatch h) fun h => nomatch h
  | error e' => simp only [Except.error.injEq]

theorem valid_of_declared {g : Graph} {s : Schedule} (h : declared g = .ok s) : s.Valid :=
  valid_of_validated h

/-! ## Valid schedules -/

/-- If no value is produced twice, what an operation produces was not produced before it. -/
theorem not_mem_before_of_nodup {s : Schedule} (h : s.outputs.Nodup) {before after : List Node}
    {n : Node} (hsplit : s.nodes = before ++ n :: after) : n.output ∉ before.map Node.output := by
  rw [outputs, hsplit, List.map_append, List.map_cons, List.nodup_append] at h
  exact fun hmem => h.2.2 _ hmem _ List.mem_cons_self rfl

/-- No value of a valid schedule is produced twice. -/
theorem Valid.nodup_outputs {s : Schedule} (h : s.Valid) : s.outputs.Nodup := by
  -- Every prefix is free of repeats; a longer prefix adds one output, which is new.
  have hprefix : ∀ after before : List Node, s.nodes = before ++ after →
      (before.map Node.output).Nodup → s.outputs.Nodup := by
    intro after
    induction after with
    | nil =>
        intro before hsplit hnodup
        rw [outputs, hsplit, List.append_nil]
        exact hnodup
    | cons n after ih =>
        intro before hsplit hnodup
        apply ih (before ++ [n])
        · rw [hsplit, List.append_assoc, List.singleton_append]
        · rw [List.map_append, List.nodup_append]
          refine ⟨hnodup, List.nodup_singleton _, ?_⟩
          intro x hx y hy hxy
          rw [List.map_singleton, List.mem_singleton] at hy
          exact (h before n after hsplit).2 (hy ▸ hxy ▸ hx)
  exact hprefix s.nodes [] rfl List.nodup_nil

/-- In a valid schedule everything that is read is produced. -/
theorem Valid.mem_outputs_of_mem_inputs {s : Schedule} (h : s.Valid) {n : Node} (hn : n ∈ s.nodes)
    {x : Name} (hx : x ∈ n.inputs) : x ∈ s.outputs := by
  obtain ⟨before, after, hsplit⟩ := List.append_of_mem hn
  rw [outputs, hsplit, List.map_append]
  exact List.mem_append_left _ ((h before n after hsplit).1 x hx)

/-- In a valid schedule a value that is read is produced before its reader. -/
theorem Valid.idxOf_lt_idxOf {s : Schedule} (h : s.Valid) {n : Node} (hn : n ∈ s.nodes) {x : Name}
    (hx : x ∈ n.inputs) : s.outputs.idxOf x < s.outputs.idxOf n.output := by
  obtain ⟨before, after, hsplit⟩ := List.append_of_mem hn
  obtain ⟨hreads, hnew⟩ := h before n after hsplit
  rw [outputs, hsplit, List.map_append, List.map_cons, List.idxOf_append_of_mem (hreads x hx),
    List.idxOf_append_of_notMem hnew, List.idxOf_cons_self]
  have hlt := List.idxOf_lt_length_of_mem (hreads x hx)
  omega

end Schedule

end SlotPlan
