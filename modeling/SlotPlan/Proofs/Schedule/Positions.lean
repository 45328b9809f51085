import SlotPlan.Proofs.Plan.Execution

/-!
# Validation, position by position

A position of a schedule is sound when the operation there reads only values that are produced at
smaller positions, and produces a value that none of these positions produces
(`Schedule.SoundAt`). A schedule is valid when all its positions are sound
(`Schedule.valid_iff_soundAt`). Otherwise validation reports
what is wrong at the smallest position that is not sound (`Schedule.validate_characterised`): the first
input that is missing there, or else the output.
-/

set_option autoImplicit false

namespace SlotPlan

namespace Schedule

variable {s : Schedule}

/-- A value is produced at a position before the given one. -/
def ProducedBefore (s : Schedule) (x : Name) (position : Nat) : Prop :=
  ∃ earlier, earlier < position ∧ s.ProducedAt x earlier

/-- The operation at a position reads only what is produced before it, and produces something new. -/
def SoundAt (s : Schedule) (position : Nat) : Prop :=
  ∀ n, s.get? position = some n →
    (∀ x ∈ n.inputs, s.ProducedBefore x position) ∧ ¬ s.ProducedBefore n.output position

/-- Of the inputs of an operation, `input` is the first one that is not produced before a position. -/
def FirstMissing (s : Schedule) (position : Nat) (n : Node) (input : Name) : Prop :=
  ∃ earlier later, n.inputs = earlier ++ input :: later ∧
    (∀ x ∈ earlier, s.ProducedBefore x position) ∧ ¬ s.ProducedBefore input position

/-! ## Cuts and positions -/

/-- What is produced before a position is what the operations before it produce. -/
theorem producedBefore_iff {x : Name} {i : Nat} :
    s.ProducedBefore x i ↔ x ∈ (s.nodes.take i).map Node.output := by
  rw [List.mem_map]
  simp only [ProducedBefore, ProducedAt, get?, List.mem_iff_getElem?, List.getElem?_take]
  constructor
  · rintro ⟨j, hj, n, hn, rfl⟩
    exact ⟨n, ⟨j, by rwa [if_pos hj]⟩, rfl⟩
  · rintro ⟨n, ⟨j, hn⟩, rfl⟩
    by_cases hj : j < i
    · rw [if_pos hj] at hn
      exact ⟨j, hj, n, hn, rfl⟩
    · rw [if_neg hj] at hn
      cases hn

/-- The position of a cut is the number of operations in front of it. -/
theorem get?_length_of_cut {before after : List Node} {n : Node}
    (hsplit : s.nodes = before ++ n :: after) :
    s.get? before.length = some n ∧ s.nodes.take before.length = before := by
  constructor
  · rw [get?, hsplit, List.getElem?_append_right (Nat.le_refl _), Nat.sub_self]
    rfl
  · rw [hsplit, List.take_left]

/-- What holds at some cut of a schedule holds at some position of it. -/
theorem exists_cut_iff {P : List Node → Node → Prop} :
    (∃ before n after, s.nodes = before ++ n :: after ∧ P before n) ↔
      ∃ i n, s.get? i = some n ∧ P (s.nodes.take i) n := by
  constructor
  · rintro ⟨before, n, after, hsplit, h⟩
    obtain ⟨hn, hbefore⟩ := get?_length_of_cut hsplit
    exact ⟨before.length, n, hn, by rwa [hbefore]⟩
  · rintro ⟨i, n, hn, h⟩
    exact ⟨_, n, _, nodes_eq_of_get? hn, h⟩

/-- **A schedule is valid when all its positions are sound.** -/
theorem valid_iff_soundAt : s.Valid ↔ ∀ i, s.SoundAt i := by
  simp only [SoundAt, producedBefore_iff]
  constructor
  · intro h i n hn
    exact h _ n _ (nodes_eq_of_get? hn)
  · intro h before n after hsplit
    obtain ⟨hn, hbefore⟩ := get?_length_of_cut hsplit
    have hsound := h before.length n hn
    rwa [hbefore] at hsound

/-- The part of a schedule in front of a position is sound wherever the schedule is. -/
theorem soundAt_take_iff {i j : Nat} (h : j < i) :
    SoundAt ⟨s.nodes.take i⟩ j ↔ s.SoundAt j := by
  simp only [SoundAt, producedBefore_iff, get?, List.take_take, Nat.min_eq_left (Nat.le_of_lt h),
    List.getElem?_take_of_lt h]

theorem valid_take_iff {i : Nat} : Valid ⟨s.nodes.take i⟩ ↔ ∀ j, j < i → s.SoundAt j := by
  rw [valid_iff_soundAt]
  constructor
  · intro h j hj
    exact (soundAt_take_iff hj).1 (h j)
  · intro h j
    by_cases hj : j < i
    · exact (soundAt_take_iff hj).2 (h j hj)
    · -- There is no operation at this position.
      intro n hn
      rw [get?, List.getElem?_take, if_neg hj] at hn
      cases hn

/-! ## What validation says -/

/-- A position that is not sound, with its operation, when all positions before it are. -/
def FirstUnsound (s : Schedule) (position : Nat) (n : Node) : Prop :=
  s.get? position = some n ∧ ¬ s.SoundAt position ∧ ∀ j, j < position → s.SoundAt j

/-- What is wrong at a position: it is not sound, since an input is missing, or else since the output is
not new. -/
theorem fault_take_iff {i : Nat} {n : Node} (hn : s.get? i = some n) {e : Error} :
    Fault ((s.nodes.take i).map Node.output) n e ↔
      ¬ s.SoundAt i ∧ ((∃ input, s.FirstMissing i n input ∧ e = .outOfOrder n.output input) ∨
        (∀ x ∈ n.inputs, s.ProducedBefore x i) ∧ e = .duplicateOutput n.output) := by
  have hsound : s.SoundAt i ↔
      (∀ x ∈ n.inputs, s.ProducedBefore x i) ∧ ¬ s.ProducedBefore n.output i := by
    rw [SoundAt, hn]
    simp only [Option.some.injEq, forall_eq']
  simp only [hsound, FirstMissing, producedBefore_iff]
  constructor
  · intro h
    refine ⟨h.not_new, ?_⟩
    cases h with
    | outOfOrder hinputs hearlier hmissing =>
        exact .inl ⟨_, ⟨_, _, hinputs, hearlier, hmissing⟩, rfl⟩
    | duplicateOutput hinputs _ => exact .inr ⟨hinputs, rfl⟩
  · rintro ⟨hunsound, ⟨input, ⟨earlier, later, hinputs, hearlier, hmissing⟩, rfl⟩ | ⟨hinputs, rfl⟩⟩
    · exact .outOfOrder hinputs hearlier hmissing
    · exact .duplicateOutput hinputs (not_not.1 fun hnew => hunsound ⟨hinputs, hnew⟩)

/-- **What validation says.** A schedule passes exactly if all its positions are sound. Otherwise the
first position that is not sound is reported: if an input is missing there, as out of order with the
first such input, also if the output is repeated; if no input is, as a duplicate output. -/
theorem validate_characterised (s : Schedule) :
    (s.validate = .ok () ↔ ∀ i, s.SoundAt i) ∧
      ∀ e, s.validate = .error e ↔ ∃ i n, s.FirstUnsound i n ∧
        ((∃ input, s.FirstMissing i n input ∧ e = .outOfOrder n.output input) ∨
          (∀ x ∈ n.inputs, s.ProducedBefore x i) ∧ e = .duplicateOutput n.output) := by
  refine ⟨validate_eq_ok_iff.trans valid_iff_soundAt, fun e => ?_⟩
  rw [validate_eq_error_iff, exists_cut_iff]
  refine exists_congr fun i => exists_congr fun n => ?_
  constructor
  · rintro ⟨hn, hbefore, hfault⟩
    obtain ⟨hunsound, hreport⟩ := (fault_take_iff hn).1 hfault
    exact ⟨⟨hn, hunsound, valid_take_iff.1 hbefore⟩, hreport⟩
  · rintro ⟨⟨hn, hunsound, hbefore⟩, hreport⟩
    exact ⟨hn, valid_take_iff.2 hbefore, (fault_take_iff hn).2 ⟨hunsound, hreport⟩⟩

/-- The second `a` also misses the input `z`, and this is what is reported of it. -/
example : validate ⟨[⟨"a", []⟩, ⟨"a", ["a", "z", "y"]⟩, ⟨"b", ["b"]⟩]⟩ =
    .error (.outOfOrder "a" "z") := by
  decide

end Schedule

end SlotPlan
