import Mathlib.Data.Prod.Lex
import SlotPlan.Proofs.Schedule.LastRead

/-!
# First reads and the order of the last reads

A value is read for the first time at the position of its first reader, and at the place of its
first mention among the inputs there (`Schedule.firstRead`). Going through a schedule, first reads
are met in lexicographic order (`Schedule.firstRead_lt_of_idxOf_lt`), so this is the order of the
entries in the liveness of the schedule (`Schedule.pairwise_firstRead`).

`Schedule.liveness_exact` puts both together: an entry has its place from the first read of its
value, and its position from the last one.
-/

set_option autoImplicit false

namespace SlotPlan

namespace Schedule

/-- The values that operations mention as inputs, first to last. -/
theorem map_fst_readings (s : Schedule) :
    s.readings.map Prod.fst = s.nodes.flatMap Node.inputs := by
  have hinputs : ∀ e : Node × Nat,
      (e.1.inputs.map fun input => (input, e.2)).map Prod.fst = e.1.inputs := by
    intro e
    rw [List.map_map]
    exact List.map_id _
  calc s.readings.map Prod.fst
      = s.nodes.zipIdx.flatMap fun e => e.1.inputs := by
        rw [readings, List.map_flatMap]
        exact congrArg s.nodes.zipIdx.flatMap (funext hinputs)
    _ = (s.nodes.zipIdx.map Prod.fst).flatMap Node.inputs := (List.flatMap_map _ _ _).symm
    _ = s.nodes.flatMap Node.inputs := by rw [List.zipIdx_map_fst]

/-! ## First reads -/

/-- Where a value is read for the first time: the position of the first operation that reads it, and
the place of its first mention among the inputs of this operation. -/
def firstRead (s : Schedule) (x : Name) : Nat ×ₗ Nat :=
  let reader := s.nodes.findIdx (x ∈ ·.inputs)
  toLex (reader, (s.get? reader).elim 0 (·.inputs.idxOf x))

theorem firstRead_cons_of_mem {n : Node} {x : Name} (hx : x ∈ n.inputs) (rest : List Node) :
    firstRead ⟨n :: rest⟩ x = toLex (0, n.inputs.idxOf x) := by
  simp [firstRead, get?, List.findIdx_cons, hx]

/-- An operation that does not read a value shifts its first read by one position. -/
theorem firstRead_cons_of_not_mem {n : Node} {x : Name} (hx : x ∉ n.inputs) (rest : List Node) :
    firstRead ⟨n :: rest⟩ x =
      toLex ((ofLex (firstRead ⟨rest⟩ x)).1 + 1, (ofLex (firstRead ⟨rest⟩ x)).2) := by
  simp [firstRead, get?, List.findIdx_cons, hx]

/-- **What is mentioned earlier in a schedule is read earlier.** -/
theorem firstRead_lt_of_idxOf_lt {nodes : List Node} {x y : Name}
    (hy : y ∈ nodes.flatMap Node.inputs)
    (hlt : (nodes.flatMap Node.inputs).idxOf x < (nodes.flatMap Node.inputs).idxOf y) :
    firstRead ⟨nodes⟩ x < firstRead ⟨nodes⟩ y := by
  induction nodes with
  | nil => cases hy
  | cons n rest ih =>
      rw [List.flatMap_cons] at hy hlt
      -- Either value is an input of the first operation, or it is read behind it only.
      by_cases hxn : x ∈ n.inputs
      · rw [firstRead_cons_of_mem hxn]
        by_cases hyn : y ∈ n.inputs
        · rw [List.idxOf_append_of_mem hxn, List.idxOf_append_of_mem hyn] at hlt
          rw [firstRead_cons_of_mem hyn, Prod.Lex.toLex_lt_toLex]
          exact .inr ⟨rfl, hlt⟩
        · rw [firstRead_cons_of_not_mem hyn, Prod.Lex.toLex_lt_toLex]
          exact .inl (Nat.succ_pos _)
      · rw [List.idxOf_append_of_notMem hxn] at hlt
        have hyn : y ∉ n.inputs := by
          intro hyn
          rw [List.idxOf_append_of_mem hyn] at hlt
          have hlength := List.idxOf_lt_length_of_mem hyn
          omega
        rw [List.idxOf_append_of_notMem hyn, Nat.add_lt_add_iff_left] at hlt
        have hrest := Prod.Lex.lt_iff.1 (ih ((List.mem_append.1 hy).resolve_left hyn) hlt)
        rw [firstRead_cons_of_not_mem hxn, firstRead_cons_of_not_mem hyn, Prod.Lex.toLex_lt_toLex]
        exact hrest.imp Nat.succ_lt_succ (And.imp_left (congrArg Nat.succ))

/-! ## The entries of the liveness -/

/-- The liveness has an entry for each value that is read, in the order of the first mentions. -/
theorem keys_lastReads (s : Schedule) :
    s.liveness.lastReads.keys = (s.nodes.flatMap Node.inputs).eraseDups := by
  rw [← map_fst_readings]
  exact Roster.keys_ofList _

/-- The last reads of a schedule are listed in the order of the first reads. -/
theorem pairwise_firstRead (s : Schedule) :
    s.liveness.lastReads.entries.Pairwise fun e e' => s.firstRead e.1 < s.firstRead e'.1 := by
  have hpairwise : s.liveness.lastReads.keys.Pairwise fun x y => s.firstRead x < s.firstRead y := by
    rw [keys_lastReads]
    apply (pairwise_idxOf_eraseDups _).imp_of_mem
    intro x y _ hy hlt
    exact firstRead_lt_of_idxOf_lt (List.mem_eraseDups.1 hy) hlt
  rwa [Roster.keys, List.pairwise_map] at hpairwise

/-- **Liveness is exact and ordered.** The last read of a value is the greatest position at which an
operation reads it, and a value has none if no operation reads it. The entries are the last reads of
all values that have one, and stand in the strict order of the first reads, so no value has two. -/
theorem liveness_exact (s : Schedule) :
    (∀ x last, s.liveness.lastRead? x = some last ↔
        s.ReadAt x last ∧ ∀ position, s.ReadAt x position → position ≤ last) ∧
      (∀ x, s.liveness.lastRead? x = none ↔ ∀ n ∈ s.nodes, x ∉ n.inputs) ∧
      (∀ x last, (x, last) ∈ s.liveness.lastReads.entries ↔ s.liveness.lastRead? x = some last) ∧
      s.liveness.lastReads.entries.Pairwise fun e e' => s.firstRead e.1 < s.firstRead e'.1 :=
  ⟨fun _ _ => lastRead?_eq_some_iff, fun _ => lastRead?_eq_none_iff,
    fun _ _ => Roster.get?_eq_some_iff.symm, s.pairwise_firstRead⟩

/-- The value `b` is mentioned first and read last; `a` is read twice by one operation. -/
example :
    let s : Schedule := ⟨[⟨"a", []⟩, ⟨"b", []⟩, ⟨"c", ["b", "a", "a"]⟩, ⟨"d", ["c", "b"]⟩]⟩
    s.liveness.lastReads.entries = [("b", 3), ("a", 2), ("c", 3)] ∧
      s.firstRead "a" = toLex (2, 1) := by
  decide

end Schedule

end SlotPlan
