import Mathlib.Data.List.Basic
import Mathlib.Data.List.Induction
import SlotPlan.Roster

/-!
# What a roster holds

`Roster.get?_eq_some_iff` reads a roster as a set of entries, and `Roster.get?_ofList` says which of
several bindings of one name counts: the last one. The place of a name is decided by the first of its
bindings (`Roster.keys_ofList`, `pairwise_idxOf_eraseDups`). `Roster.Gathers` says both. Where no name
is bound twice, binding the names one after the other changes nothing (`Roster.entries_ofList`).
-/

set_option autoImplicit false

namespace SlotPlan

/-! ## First mentions -/

section

variable {α : Type} [BEq α] [LawfulBEq α]

/-- An element at the end of a list is a first mention only if it is new. -/
theorem eraseDups_concat (xs : List α) (x : α) :
    (xs ++ [x]).eraseDups = if x ∈ xs then xs.eraseDups else xs.eraseDups ++ [x] := by
  rw [List.eraseDups_append]
  by_cases hx : x ∈ xs <;> simp [List.removeAll, hx, List.eraseDups_cons]

/-- Without repeats, the elements of a list stand in the order of their first mention. -/
theorem pairwise_idxOf_eraseDups (xs : List α) :
    xs.eraseDups.Pairwise fun x y => xs.idxOf x < xs.idxOf y := by
  induction xs using List.reverseRecOn with
  | nil => exact List.Pairwise.nil
  | append_singleton xs x ih =>
      -- A mention at the end moves nothing that has been mentioned before.
      have hold : xs.eraseDups.Pairwise fun y z =>
          (xs ++ [x]).idxOf y < (xs ++ [x]).idxOf z := by
        apply ih.imp_of_mem
        intro y z hy hz hlt
        rwa [List.idxOf_append_of_mem (List.mem_eraseDups.1 hy),
          List.idxOf_append_of_mem (List.mem_eraseDups.1 hz)]
      rw [eraseDups_concat]
      split
      · exact hold
      · rename_i hx
        rw [List.pairwise_append]
        refine ⟨hold, List.pairwise_singleton _ _, ?_⟩
        intro y hy z hz
        obtain rfl := List.mem_singleton.1 hz
        have hy := List.mem_eraseDups.1 hy
        rw [List.idxOf_append_of_mem hy, List.idxOf_append_of_notMem hx]
        have hlt := List.idxOf_lt_length_of_mem hy
        omega

theorem nodup_eraseDups (xs : List α) : xs.eraseDups.Nodup := by
  apply (pairwise_idxOf_eraseDups xs).imp
  rintro x y hlt rfl
  exact Nat.lt_irrefl _ hlt

/-- What is found first in a list is found first among the first mentions. -/
theorem find?_eraseDups (p : α → Bool) (xs : List α) : xs.eraseDups.find? p = xs.find? p := by
  induction xs using List.reverseRecOn with
  | nil => rfl
  | append_singleton xs x ih =>
      rw [eraseDups_concat, List.find?_append]
      split
      · rename_i hx
        rw [ih]
        cases hfind : xs.find? p with
        | some y => rfl
        | none =>
            -- The last element has been passed over before.
            have hp := List.find?_eq_none.1 hfind x hx
            rw [Option.none_or, List.find?_singleton, if_neg hp]
      · rw [List.find?_append, ih]

end

namespace Roster

variable {α : Type}

/-! ## Entries -/

theorem lookup_of_mem {key : Name} {value : α} :
    ∀ {es : List (Name × α)}, (es.map Prod.fst).Nodup → (key, value) ∈ es →
      es.lookup key = some value := by
  intro es
  induction es with
  | nil => intro _ hmem; cases hmem
  | cons e es ih =>
      intro hnodup hmem
      rw [List.map_cons, List.nodup_cons] at hnodup
      rcases List.mem_cons.1 hmem with rfl | hmem
      · exact List.lookup_cons_self
      · have hne : (key == e.1) = false := by
          rw [beq_eq_false_iff_ne]
          rintro rfl
          exact hnodup.1 (List.mem_map.2 ⟨_, hmem, rfl⟩)
        rw [List.lookup_cons, hne]
        exact ih hnodup.2 hmem

theorem mem_of_lookup {key : Name} {value : α} {es : List (Name × α)}
    (h : es.lookup key = some value) : (key, value) ∈ es := by
  obtain ⟨before, after, rfl, -⟩ := List.lookup_eq_some_iff.1 h
  exact List.mem_append_right _ List.mem_cons_self

/-- A roster gives a value for a name exactly when it has that entry. -/
theorem get?_eq_some_iff {r : Roster α} {key : Name} {value : α} :
    r.get? key = some value ↔ (key, value) ∈ r.entries := by
  constructor
  · exact mem_of_lookup
  · exact lookup_of_mem r.nodup

/-- A name is bound exactly when the roster has a value for it. -/
theorem mem_keys_iff {r : Roster α} {key : Name} : key ∈ r.keys ↔ r.get? key ≠ none := by
  constructor
  · intro hkey hnone
    obtain ⟨e, he, rfl⟩ := List.mem_map.1 hkey
    rw [get?_eq_some_iff.2 he] at hnone
    cases hnone
  · intro hsome
    obtain ⟨value, hvalue⟩ := Option.ne_none_iff_exists'.1 hsome
    exact List.mem_map_of_mem (get?_eq_some_iff.1 hvalue)

/-! ## Lists of bindings -/

theorem putEntry_of_not_mem {key : Name} {value : α} :
    ∀ {es : List (Name × α)}, key ∉ es.map Prod.fst → putEntry key value es = es ++ [(key, value)]
  | [], _ => rfl
  | e :: es, h => by
      rw [List.map_cons, List.mem_cons, not_or] at h
      rw [putEntry, if_neg fun he => h.1 he.symm, putEntry_of_not_mem h.2, List.cons_append]

theorem ofList_append (es fs : List (Name × α)) :
    ofList (es ++ fs) = fs.foldl (fun r e => r.put e.1 e.2) (ofList es) :=
  List.foldl_append

theorem ofList_concat (es : List (Name × α)) (e : Name × α) :
    ofList (es ++ [e]) = (ofList es).put e.1 e.2 :=
  ofList_append es [e]

/-- The names of a list of bindings stand in the order of their first mention. -/
theorem keys_ofList (es : List (Name × α)) :
    (ofList es).keys = (es.map Prod.fst).eraseDups := by
  induction es using List.reverseRecOn with
  | nil => rfl
  | append_singleton es e ih =>
      rw [ofList_concat, List.map_append, List.map_singleton, eraseDups_concat, ← ih]
      split
      · rename_i hmem
        apply keys_put_of_mem
        rwa [ih, List.mem_eraseDups]
      · rename_i hnew
        apply keys_put_of_not_mem
        rwa [ih, List.mem_eraseDups]

/-- Bindings of distinct names become the entries, in the same order. -/
theorem entries_ofList {es : List (Name × α)} (h : (es.map Prod.fst).Nodup) :
    (ofList es).entries = es := by
  -- The binding that is made last has to find the earlier ones as they were given.
  induction es using List.reverseRecOn with
  | nil => rfl
  | append_singleton es e ih =>
      rw [List.map_append, List.nodup_append] at h
      obtain ⟨hnodup, -, hdisjoint⟩ := h
      have hnew : e.1 ∉ es.map Prod.fst := fun hmem =>
        hdisjoint e.1 hmem e.1 (List.mem_singleton.2 rfl) rfl
      rw [ofList_concat]
      show putEntry e.1 e.2 (ofList es).entries = es ++ [e]
      rw [ih hnodup, putEntry_of_not_mem hnew]

/-- Rosters with the same entries are the same. -/
theorem eq_of_entries_eq {r s : Roster α} (h : r.entries = s.entries) : r = s := by
  cases r
  cases s
  cases h
  rfl

theorem putEntry_of_lookup {key : Name} {value : α} {es : List (Name × α)}
    (h : es.lookup key = some value) : putEntry key value es = es := by
  induction es with
  | nil => cases h
  | cons e es ih =>
      rw [putEntry]
      split
      · rename_i hkey
        subst hkey
        rw [List.lookup_cons_self, Option.some.injEq] at h
        rw [← h]
      · rename_i hkey
        rw [List.lookup_cons, beq_eq_false_iff_ne.2 (Ne.symm hkey)] at h
        rw [ih h]

/-- Binding a name to the value that it has changes nothing. -/
theorem put_of_get? {r : Roster α} {key : Name} {value : α} (h : r.get? key = some value) :
    r.put key value = r :=
  eq_of_entries_eq (putEntry_of_lookup h)

/-- Binding the names of a roster one after the other gives the roster again. -/
theorem ofList_entries (r : Roster α) : ofList r.entries = r :=
  eq_of_entries_eq (entries_ofList r.nodup)

/-- Of the bindings of a name, the last one counts. -/
theorem get?_ofList (es : List (Name × α)) (key : Name) :
    (ofList es).get? key = es.reverse.lookup key := by
  induction es using List.reverseRecOn with
  | nil => rfl
  | append_singleton es e ih =>
      rw [ofList_concat, List.reverse_append, List.reverse_singleton, List.singleton_append,
        List.lookup_cons]
      -- The binding that is made last is the first one in the reversed list.
      by_cases hk : key = e.1
      · subst hk
        rw [get?_put_self, beq_self_eq_true]
      · rw [get?_put_of_ne _ _ hk, ih, beq_eq_false_iff_ne.2 hk]

/-- What a roster holds is among the bindings that it is made of. -/
theorem mem_of_mem_entries_ofList {es : List (Name × α)} {e : Name × α}
    (he : e ∈ (ofList es).entries) : e ∈ es := by
  have hget := get?_eq_some_iff.2 he
  rw [get?_ofList] at hget
  exact List.mem_reverse.1 (mem_of_lookup hget)

/-- The roster has the names of the bindings in the order of their first mention, each with the value
of its last mention. -/
structure Gathers (r : Roster α) (es : List (Name × α)) : Prop where
  /-- The names stand in the order of their first mention. -/
  keys_eq : r.keys = (es.map Prod.fst).eraseDups
  /-- A name has the value of the binding that no other one of it comes after. -/
  get?_eq : ∀ {before after : List (Name × α)} {key : Name} {value : α},
    es = before ++ (key, value) :: after → key ∉ after.map Prod.fst → r.get? key = some value

/-- **Bindings that are made one after the other are gathered.** -/
theorem gathers_ofList (es : List (Name × α)) : (ofList es).Gathers es where
  keys_eq := keys_ofList es
  get?_eq {before after key value} hes hlast := by
    rw [get?_ofList, List.lookup_eq_some_iff]
    refine ⟨after.reverse, before.reverse, ?_, ?_⟩
    · rw [hes, List.reverse_append, List.reverse_cons, List.append_assoc, List.singleton_append]
    · intro e he
      rw [bne_iff_ne]
      rintro rfl
      exact hlast (List.mem_map_of_mem (List.mem_reverse.1 he))

/-- The name `x` stands first and has its last value. -/
example : (ofList [("x", 4), ("y", 2), ("x", 1)]).entries = [("x", 1), ("y", 2)] := by
  decide

end Roster

end SlotPlan
