import SlotPlan.SlotTable

/-!
# What a claim does to the table of slots

A claim either takes a slot whose occupant is read no more, the one of them that was filled last, or
opens a slot behind all others because every occupant is still needed (`SlotTable.Claimed`). In both
cases the newcomer becomes the occupant of its slot and no other slot changes
(`SlotTable.Claimed.getElem?_occupants`). What the claim reports about itself tells the two apart: the
slot was there before (`SlotTable.Claimed.reused_iff_slot_lt`), or, which comes to the same, there was
a slot to choose (`SlotTable.Claimed.reused_iff_candidates_pos`).
-/

set_option autoImplicit false

namespace SlotPlan

namespace SlotTable

/-! ## Free slots -/

/-- A slot is free when the last read of its occupant is over. -/
theorem mem_free_iff {t : SlotTable} {position : Nat} {o : Occupant} {slot : Slot} :
    (o, slot) ∈ t.free position ↔
      t.occupants[slot]? = some o ∧ o.lifetime.endsBefore position = true := by
  rw [free, List.mem_filter, List.mk_mem_zipIdx_iff_getElem?]

/-! ## Claims -/

/-- What a claim at a position can come to. -/
inductive Claimed (t : SlotTable) (position : Nat) (lifetime : Lifetime) :
    Claim → SlotTable → Prop where
  /-- The value takes the free slot whose occupant was created last. -/
  | reuse {o : Occupant} {slot : Slot} (hslot : t.occupants[slot]? = some o)
      (hfree : o.lifetime.endsBefore position = true)
      (hlatest : ∀ (k : Slot) (o' : Occupant), t.occupants[k]? = some o' →
        o'.lifetime.endsBefore position = true → o'.created ≤ o.created) :
      Claimed t position lifetime ⟨slot, true, (t.free position).length⟩
        ⟨t.occupants.set slot ⟨position, lifetime⟩⟩
  /-- Every occupant is still needed, and the value takes a new slot. -/
  | fresh (hfull : ∀ (k : Slot) (o : Occupant), t.occupants[k]? = some o →
        o.lifetime.endsBefore position = false) :
      Claimed t position lifetime ⟨t.size, false, (t.free position).length⟩
        ⟨t.occupants ++ [⟨position, lifetime⟩]⟩

/-- Every claim is one of the two. -/
theorem claimed (t : SlotTable) (position : Nat) (lifetime : Lifetime) :
    t.Claimed position lifetime (t.claim position lifetime).1 (t.claim position lifetime).2 := by
  cases hmax : (t.free position).maxOn? (·.1.created) with
  | none =>
      simp only [claim, hmax]
      apply Claimed.fresh
      intro k o hk
      -- An occupant whose lifetime is over would be among the free ones, and there are none.
      rw [← Bool.not_eq_true]
      intro hends
      have hsome : ((t.free position).maxOn? (·.1.created)).isSome :=
        List.isSome_maxOn?_of_mem (mem_free_iff.2 ⟨hk, hends⟩)
      rw [hmax] at hsome
      cases hsome
  | some chosen =>
      obtain ⟨o, slot⟩ := chosen
      simp only [claim, hmax]
      obtain ⟨hslot, hfree⟩ := mem_free_iff.1 (List.maxOn?_mem hmax)
      apply Claimed.reuse hslot hfree
      intro k o' hk hends
      have hle := List.le_apply_get_maxOn?_of_mem (f := (·.1.created)) (mem_free_iff.2 ⟨hk, hends⟩)
      simp only [hmax, Option.get_some] at hle
      exact hle

section

variable {t t' : SlotTable} {position : Nat} {lifetime : Lifetime} {c : Claim}

/-- The newcomer is the occupant of the slot it claims; the other slots keep theirs. -/
theorem Claimed.getElem?_occupants (h : t.Claimed position lifetime c t') (k : Slot) :
    t'.occupants[k]? = if k = c.slot then some ⟨position, lifetime⟩ else t.occupants[k]? := by
  cases h with
  | @reuse o slot hslot hfree hlatest =>
      have hlt : slot < t.occupants.length := (List.getElem?_eq_some_iff.1 hslot).1
      show (t.occupants.set slot _)[k]? = if k = slot then _ else _
      by_cases hk : k = slot
      · subst hk
        rw [if_pos rfl, List.getElem?_set_self hlt]
      · rw [if_neg hk, List.getElem?_set_ne (Ne.symm hk)]
  | fresh hfull =>
      show (t.occupants ++ [_])[k]? = if k = t.occupants.length then _ else _
      rcases Nat.lt_trichotomy k t.occupants.length with hlt | rfl | hgt
      · rw [if_neg (Nat.ne_of_lt hlt), List.getElem?_append_left hlt]
      · rw [if_pos rfl, List.getElem?_concat_length]
      · have hlen : (t.occupants ++ [(⟨position, lifetime⟩ : Occupant)]).length ≤ k := by
          rw [List.length_append, List.length_singleton]
          exact hgt
        rw [if_neg (Nat.ne_of_gt hgt), List.getElem?_eq_none hlen,
          List.getElem?_eq_none (Nat.le_of_lt hgt)]

/-- A slot is only claimed when its occupant, if it has one, is read no more. -/
theorem Claimed.endsBefore (h : t.Claimed position lifetime c t') {o : Occupant}
    (ho : t.occupants[c.slot]? = some o) : o.lifetime.endsBefore position = true := by
  cases h with
  | reuse hslot hfree hlatest =>
      rw [hslot] at ho
      cases ho
      exact hfree
  | fresh hfull =>
      simp [size] at ho

/-! ## What a claim reports -/

/-- A claim counts the free slots. -/
theorem Claimed.candidates_eq (h : t.Claimed position lifetime c t') :
    c.candidates = (t.free position).length := by
  cases h with
  | reuse _ _ _ => rfl
  | fresh _ => rfl

/-- A slot is reused exactly if it was in the table. -/
theorem Claimed.reused_iff_slot_lt (h : t.Claimed position lifetime c t') :
    c.reused = true ↔ c.slot < t.size := by
  cases h with
  | reuse hslot _ _ => exact iff_of_true rfl (List.getElem?_eq_some_iff.1 hslot).1
  | fresh _ => exact iff_of_false Bool.false_ne_true (Nat.lt_irrefl _)

/-- A slot is reused exactly if there was a free one. -/
theorem Claimed.reused_iff_candidates_pos (h : t.Claimed position lifetime c t') :
    c.reused = true ↔ 0 < c.candidates := by
  cases h with
  | reuse hslot hfree _ =>
      exact iff_of_true rfl (List.length_pos_of_mem (mem_free_iff.2 ⟨hslot, hfree⟩))
  | fresh hfull =>
      refine iff_of_false Bool.false_ne_true ?_
      intro hpos
      obtain ⟨⟨o, k⟩, hmem⟩ := List.exists_mem_of_length_pos hpos
      obtain ⟨hk, hends⟩ := mem_free_iff.1 hmem
      rw [hfull k o hk] at hends
      cases hends

end

end SlotTable

end SlotPlan
