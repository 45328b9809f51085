import Mathlib.Data.Prod.Lex
import SlotPlan.Proofs.Record

/-!
# What the list of conflicts says

An allocation that was made by hand, or read from a text, may hold any records at all, the same one
more than once among them. Whether it is sound is therefore a question about places in the list of
its records: two places clash when their records share a slot and overlap (`Allocation.ClashAt`).

The conflicts are the pairs of records at the places that clash, in the lexicographic order of
these places, so none is missing and none is there twice (`Allocation.exists_listsClashes`). As
overlapping means being live at a common position, there are no conflicts exactly if no slot holds
two live values at any position (`Allocation.conflicts_exact`).
-/

set_option autoImplicit false

namespace SlotPlan

namespace Record

theorem overlaps_self (r : Record) : r.overlaps r = true :=
  overlaps_iff_exists_liveAt.2 ⟨r.created, r.liveAt_created, r.liveAt_created⟩

/-- Records that overlap are both live when the later one is created. -/
theorem overlaps_iff_liveAt_max {a b : Record} :
    a.overlaps b = true ↔
      a.LiveAt (max a.created b.created) ∧ b.LiveAt (max a.created b.created) := by
  constructor
  · intro h
    obtain ⟨hab, hba⟩ := overlaps_iff.1 h
    rcases Nat.le_total a.created b.created with hle | hle
    · rw [Nat.max_eq_right hle]
      exact ⟨⟨hle, hba⟩, b.liveAt_created⟩
    · rw [Nat.max_eq_left hle]
      exact ⟨a.liveAt_created, ⟨hle, hab⟩⟩
  · intro h
    exact overlaps_iff_exists_liveAt.2 ⟨_, h⟩

end Record

namespace Allocation

/-- The records at two places, the first one before the second one, share a slot and overlap. -/
def ClashAt (rs : List Record) (i j : Nat) : Prop :=
  i < j ∧ ∃ r r', rs[i]? = some r ∧ rs[j]? = some r' ∧ r.slot = r'.slot ∧ r.overlaps r' = true

/-- The pairs of records at the places that clash, in the lexicographic order of the places. -/
structure ListsClashes (rs : List Record) (places : List (Nat × Nat))
    (pairs : List (Record × Record)) : Prop where
  /-- Places that come earlier are listed earlier, and none are listed twice. -/
  sorted : places.Pairwise fun p q => toLex p < toLex q
  /-- The places are those that clash. -/
  mem_iff : ∀ i j, (i, j) ∈ places ↔ ClashAt rs i j
  /-- A pair consists of the records at its two places. -/
  pairs_eq : pairs.map (fun (r, r') => (some r, some r')) =
    places.map fun (i, j) => (rs[i]?, rs[j]?)

/-! ## One more record in front -/

section

variable {a : Record} {rest : List Record}

/-- The records of a list that share the slot of a record and overlap with it, with their places. -/
def partners (a : Record) (rest : List Record) : List (Record × Nat) :=
  rest.zipIdx.filter fun (b, _) => a.slot = b.slot && a.overlaps b

theorem mem_partners_iff {b : Record} {j : Nat} :
    (b, j) ∈ partners a rest ↔ rest[j]? = some b ∧ a.slot = b.slot ∧ a.overlaps b = true := by
  rw [partners, List.mem_filter, List.mk_mem_zipIdx_iff_getElem?, Bool.and_eq_true,
    decide_eq_true_eq]

theorem map_fst_partners :
    (partners a rest).map Prod.fst = rest.filter fun b => a.slot = b.slot && a.overlaps b := by
  have hfst : (fun b : Record => decide (a.slot = b.slot) && a.overlaps b) ∘ Prod.fst =
      fun e : Record × Nat => decide (a.slot = e.1.slot) && a.overlaps e.1 := rfl
  rw [partners, ← hfst, ← List.filter_map, List.zipIdx_map_fst]

theorem pairwise_partners : (partners a rest).Pairwise fun e e' => e.2 < e'.2 := by
  have hplaces : rest.zipIdx.Pairwise fun e e' => e.2 < e'.2 := by
    rw [← List.pairwise_map, List.zipIdx_map_snd, ← List.range_eq_range']
    exact List.pairwise_lt_range
  exact hplaces.filter _

theorem clashAt_cons_zero_iff {j : Nat} :
    ClashAt (a :: rest) 0 (j + 1) ↔ ∃ b, (b, j) ∈ partners a rest := by
  simp only [ClashAt, mem_partners_iff, List.getElem?_cons_zero, List.getElem?_cons_succ,
    Nat.succ_pos, true_and, Option.some.injEq]
  constructor
  · rintro ⟨r, b, rfl, hb⟩
    exact ⟨b, hb⟩
  · rintro ⟨b, hb⟩
    exact ⟨a, b, rfl, hb⟩

theorem clashAt_cons_succ_iff {i j : Nat} :
    ClashAt (a :: rest) (i + 1) (j + 1) ↔ ClashAt rest i j := by
  simp only [ClashAt, List.getElem?_cons_succ, Nat.add_lt_add_iff_right]

/-- A record in front clashes with its partners; all other clashes move by one place. -/
theorem ListsClashes.cons {places : List (Nat × Nat)} {pairs : List (Record × Record)}
    (h : ListsClashes rest places pairs) :
    ListsClashes (a :: rest)
      ((partners a rest).map (fun e => (0, e.2 + 1)) ++ places.map (Prod.map (· + 1) (· + 1)))
      ((partners a rest).map (fun e => (a, e.1)) ++ pairs) where
  sorted := by
    rw [List.pairwise_append, List.pairwise_map, List.pairwise_map]
    refine ⟨pairwise_partners.imp ?_, h.sorted.imp ?_, ?_⟩
    · intro e e' hlt
      exact Prod.Lex.toLex_lt_toLex.2 (.inr ⟨rfl, Nat.succ_lt_succ hlt⟩)
    · intro p q hlt
      rw [Prod.Lex.toLex_lt_toLex] at hlt ⊢
      exact hlt.imp Nat.succ_lt_succ (And.imp (congrArg Nat.succ) Nat.succ_lt_succ)
    · intro p hp q hq
      obtain ⟨e, -, rfl⟩ := List.mem_map.1 hp
      obtain ⟨q, -, rfl⟩ := List.mem_map.1 hq
      exact Prod.Lex.toLex_lt_toLex.2 (.inl (Nat.succ_pos q.1))
  mem_iff := by
    intro i j
    rw [List.mem_append, List.mem_map, List.mem_map]
    -- Both places count from the record in front; no clash has its second place there.
    cases j with
    | zero =>
        refine iff_of_false ?_ fun hclash => Nat.not_lt_zero _ hclash.1
        rintro (⟨e, -, heq⟩ | ⟨q, -, heq⟩) <;> cases heq
    | succ j =>
        cases i with
        | zero =>
            rw [clashAt_cons_zero_iff]
            constructor
            · rintro (⟨e, he, heq⟩ | ⟨q, -, heq⟩)
              · cases heq
                exact ⟨e.1, he⟩
              · cases heq
            · rintro ⟨b, hb⟩
              exact .inl ⟨(b, j), hb, rfl⟩
        | succ i =>
            rw [clashAt_cons_succ_iff, ← h.mem_iff]
            constructor
            · rintro (⟨e, -, heq⟩ | ⟨q, hq, heq⟩)
              · cases heq
              · cases heq
                exact hq
            · intro hq
              exact .inr ⟨(i, j), hq, rfl⟩
  pairs_eq := by
    rw [List.map_append, List.map_append, List.map_map, List.map_map, List.map_map, h.pairs_eq]
    congr 1
    apply List.map_congr_left
    rintro ⟨b, j⟩ hb
    simp only [Function.comp_apply, List.getElem?_cons_zero, List.getElem?_cons_succ,
      (mem_partners_iff.1 hb).1]

end

/-! ## The conflicts of an allocation -/

theorem exists_listsClashes (rs : List Record) :
    ∃ places, ListsClashes rs places (conflictsAmong rs) := by
  induction rs with
  | nil =>
      refine ⟨[], List.Pairwise.nil, ?_, rfl⟩
      intro i j
      refine iff_of_false List.not_mem_nil ?_
      rintro ⟨-, r, -, hr, -⟩
      cases hr
  | cons a rest ih =>
      obtain ⟨places, hplaces⟩ := ih
      have hcons := hplaces.cons (a := a)
      rw [conflictsAmong, ← map_fst_partners, List.map_map]
      exact ⟨_, hcons⟩

/-- There are no conflicts exactly if no two places clash. -/
theorem conflictsAmong_eq_nil_iff_not_clashAt {rs : List Record} :
    conflictsAmong rs = [] ↔ ∀ i j, ¬ ClashAt rs i j := by
  obtain ⟨places, hplaces⟩ := exists_listsClashes rs
  have hlength := congrArg List.length hplaces.pairs_eq
  rw [List.length_map, List.length_map] at hlength
  rw [← List.length_eq_zero_iff, hlength, List.length_eq_zero_iff, List.eq_nil_iff_forall_not_mem]
  constructor
  · intro hnone i j hclash
    exact hnone (i, j) ((hplaces.mem_iff i j).2 hclash)
  · rintro hnone ⟨i, j⟩ hmem
    exact hnone i j ((hplaces.mem_iff i j).1 hmem)

/-- **Conflict detection is exact, for whatever records.** Two records overlap exactly if both are
live at some position, and then they are when the later one is created; overlapping is symmetric,
and every record overlaps with itself. The conflicts of an allocation are the pairs of records at
the places that clash, each once and in the lexicographic order of the places. So there are none
exactly if at no position two records at different places share a slot and are both live. -/
theorem conflicts_exact :
    (∀ r r' : Record, (r.overlaps r' = true ↔ ∃ p, r.LiveAt p ∧ r'.LiveAt p) ∧
        (r.overlaps r' = true ↔
          r.LiveAt (max r.created r'.created) ∧ r'.LiveAt (max r.created r'.created)) ∧
        r.overlaps r' = r'.overlaps r ∧ r.overlaps r = true) ∧
      ∀ a : Allocation, (∃ places, ListsClashes a.records.values places a.conflicts) ∧
        (a.conflicts = [] ↔ ∀ (p i j : Nat) (r r' : Record), i ≠ j →
          a.records.values[i]? = some r → a.records.values[j]? = some r' → r.slot = r'.slot →
            ¬ (r.LiveAt p ∧ r'.LiveAt p)) := by
  refine ⟨fun r r' => ⟨Record.overlaps_iff_exists_liveAt, Record.overlaps_iff_liveAt_max,
    r.overlaps_comm r', r.overlaps_self⟩, fun a => ⟨exists_listsClashes a.records.values, ?_⟩⟩
  rw [conflicts, conflictsAmong_eq_nil_iff_not_clashAt]
  constructor
  · intro hnone p i j r r' hne hr hr' hslot hlive
    -- Whichever place comes first, the two clash.
    rcases Nat.lt_or_gt_of_ne hne with hlt | hgt
    · exact hnone i j ⟨hlt, r, r', hr, hr', hslot, Record.overlaps_iff_exists_liveAt.2 ⟨p, hlive⟩⟩
    · exact hnone j i ⟨hgt, r', r, hr', hr, hslot.symm,
        Record.overlaps_iff_exists_liveAt.2 ⟨p, hlive.symm⟩⟩
  · rintro hnone i j ⟨hlt, r, r', hr, hr', hslot, hoverlaps⟩
    obtain ⟨p, hlive⟩ := Record.overlaps_iff_exists_liveAt.1 hoverlaps
    exact hnone p i j r r' (Nat.ne_of_lt hlt) hr hr' hslot hlive

/-- The records of `b` and `c` are the same, and end before they are created. They overlap with one
another and with that of `a`, which has the same slot; `d` is live then in another slot. -/
example :
    let r : Record := ⟨"a", 1, 0, .unbounded⟩
    let r' : Record := ⟨"b", 1, 4, .bounded 2⟩
    let a : Allocation := ⟨.ofList [("a", r), ("b", r'), ("d", ⟨"d", 0, 4, .unbounded⟩), ("c", r')],
      ⟨.empty⟩, 1, 1⟩
    a.conflicts = [(r, r'), (r, r'), (r', r')] := by
  decide

end Allocation

end SlotPlan
