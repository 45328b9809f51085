import SlotPlan.Node

/-!
# Rosters: tables by name that keep the order of arrival

A roster binds names to values. Its entries stand in the order in which their names first arrived:
binding a name again replaces the value and leaves the entry where it is.

## What this module delivers

- `Roster`: the entries, with the proof that no name has two of them.
- `Roster.put` and `Roster.get?`, with the two laws that relate them (`get?_put_self`,
  `get?_put_of_ne`), and the names after a `put` (`keys_put_of_mem`, `keys_put_of_not_mem`).
- `Roster.ofList`: the roster of a list of bindings, where the first mention of a name decides its
  place and the last one its value.
- `Roster.agrees`: equality of two rosters up to the order of their entries.
-/

set_option autoImplicit false

namespace SlotPlan

/-- A table by name whose entries stand in the order of arrival. -/
structure Roster (α : Type) where
  /-- The bindings, oldest first. -/
  entries : List (Name × α)
  /-- No name is bound twice. -/
  nodup : (entries.map Prod.fst).Nodup
deriving DecidableEq

namespace Roster

variable {α : Type}

/-! ## Entry lists -/

/-- Binds a name in a list of entries: in place if it is there, else at the end. -/
def putEntry (key : Name) (value : α) : List (Name × α) → List (Name × α)
  | [] => [(key, value)]
  | entry :: rest =>
    if entry.1 = key then (key, value) :: rest else entry :: putEntry key value rest

theorem map_fst_putEntry_of_mem {key : Name} {value : α} :
    ∀ {es : List (Name × α)}, key ∈ es.map Prod.fst →
      (putEntry key value es).map Prod.fst = es.map Prod.fst
  | [], h => by simp at h
  | e :: es, h => by
      by_cases he : e.1 = key
      · simp [putEntry, he]
      · have hmem : key ∈ es.map Prod.fst := by
          rcases List.mem_cons.1 h with rfl | h
          · exact absurd rfl he
          · exact h
        simp [putEntry, he, map_fst_putEntry_of_mem hmem]

theorem map_fst_putEntry_of_not_mem {key : Name} {value : α} :
    ∀ {es : List (Name × α)}, key ∉ es.map Prod.fst →
      (putEntry key value es).map Prod.fst = es.map Prod.fst ++ [key]
  | [], _ => rfl
  | e :: es, h => by
      have he : e.1 ≠ key := fun he => h (by simp [he])
      have hmem : key ∉ es.map Prod.fst := fun hk => h (List.mem_cons_of_mem _ hk)
      simp [putEntry, he, map_fst_putEntry_of_not_mem hmem]

theorem nodup_putEntry {key : Name} {value : α} {es : List (Name × α)}
    (h : (es.map Prod.fst).Nodup) : ((putEntry key value es).map Prod.fst).Nodup := by
  by_cases hk : key ∈ es.map Prod.fst
  · rw [map_fst_putEntry_of_mem hk]
    exact h
  · rw [map_fst_putEntry_of_not_mem hk, List.nodup_append]
    exact ⟨h, by simp, fun a ha b hb => by
      rw [List.mem_singleton.1 hb]
      exact fun hab => hk (hab ▸ ha)⟩

theorem lookup_putEntry_self {key : Name} {value : α} :
    ∀ {es : List (Name × α)}, (putEntry key value es).lookup key = some value
  | [] => by simp [putEntry]
  | (k, v) :: es => by
      by_cases hk : k = key
      · simp [putEntry, hk]
      · have hne : (key == k) = false := by simpa using fun h => hk h.symm
        simp [putEntry, hk, List.lookup_cons, hne, lookup_putEntry_self]

theorem lookup_putEntry_of_ne {key other : Name} {value : α} (h : other ≠ key) :
    ∀ {es : List (Name × α)}, (putEntry key value es).lookup other = es.lookup other
  | [] => by
      have hne : (other == key) = false := by simpa using h
      simp [putEntry, List.lookup_cons, hne]
  | (k, v) :: es => by
      by_cases hk : k = key
      · have hne : (other == key) = false := by simpa using h
        simp [putEntry, hk, List.lookup_cons, hne]
      · simp [putEntry, hk, List.lookup_cons, lookup_putEntry_of_ne h]

/-! ## Rosters -/

/-- The roster without entries. -/
def empty : Roster α :=
  ⟨[], List.nodup_nil⟩

instance : Inhabited (Roster α) :=
  ⟨empty⟩

/-- Binds a name: a name that is bound keeps its place, a new one comes last. -/
def put (r : Roster α) (key : Name) (value : α) : Roster α :=
  ⟨putEntry key value r.entries, nodup_putEntry r.nodup⟩

/-- The value that a name is bound to. -/
def get? (r : Roster α) (key : Name) : Option α :=
  r.entries.lookup key

/-- The names that are bound, oldest first. -/
def keys (r : Roster α) : List Name :=
  r.entries.map Prod.fst

/-- The values that names are bound to, in the order of the entries. -/
def values (r : Roster α) : List α :=
  r.entries.map Prod.snd

/-- The number of entries. -/
def size (r : Roster α) : Nat :=
  r.entries.length

/-- Binds the names of a list one after the other. -/
def ofList (es : List (Name × α)) : Roster α :=
  es.foldl (fun r e => r.put e.1 e.2) empty

/-- Two rosters agree when they bind the same names to the same values, in whatever order. -/
def agrees [BEq α] (r s : Roster α) : Bool :=
  r.size == s.size && r.entries.all fun e => s.get? e.1 == some e.2

@[simp]
theorem get?_empty (key : Name) : (empty : Roster α).get? key = none :=
  rfl

@[simp]
theorem get?_put_self (r : Roster α) (key : Name) (value : α) :
    (r.put key value).get? key = some value :=
  lookup_putEntry_self

theorem get?_put_of_ne (r : Roster α) {key other : Name} (value : α) (h : other ≠ key) :
    (r.put key value).get? other = r.get? other :=
  lookup_putEntry_of_ne h

theorem keys_put_of_mem {r : Roster α} {key : Name} (value : α) (h : key ∈ r.keys) :
    (r.put key value).keys = r.keys :=
  map_fst_putEntry_of_mem h

theorem keys_put_of_not_mem {r : Roster α} {key : Name} (value : α) (h : key ∉ r.keys) :
    (r.put key value).keys = r.keys ++ [key] :=
  map_fst_putEntry_of_not_mem h

end Roster

end SlotPlan
