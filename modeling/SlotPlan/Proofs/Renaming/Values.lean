import Mathlib.Data.List.Basic
import Mathlib.Data.List.Nodup
import Mathlib.Logic.Embedding.Basic
import SlotPlan.Plan

/-!
# Renaming

An embedding of the names into the names renames whatever carries names: operations, graphs,
schedules, tables, plans and errors. Numbers, and the order in which things stand, stay as they are.
What a table says about a name it says about the new name after renaming (`Roster.get?_rename`), and
names are bound one after the other as before (`Roster.rename_put`, `Roster.rename_ofList`).
-/

set_option autoImplicit false

namespace SlotPlan

variable {α β : Type} (f : Name ↪ Name)

/-! ## Tables -/

namespace Roster

/-- Renames the names that are bound, and changes the values. -/
def rename (g : α → β) (r : Roster α) : Roster β where
  entries := r.entries.map (Prod.map f g)
  nodup := by
    have hkeys : (r.entries.map (Prod.map f g)).map Prod.fst = (r.entries.map Prod.fst).map f := by
      rw [List.map_map, List.map_map]
      rfl
    rw [hkeys]
    exact r.nodup.map f.injective

variable (g : α → β)

theorem lookup_map (key : Name) (es : List (Name × α)) :
    (es.map (Prod.map f g)).lookup (f key) = (es.lookup key).map g := by
  induction es with
  | nil => rfl
  | cons e es ih =>
      rw [List.map_cons, List.lookup_cons, List.lookup_cons, Prod.map_fst, Prod.map_snd,
        f.injective.beq_eq, ih]
      cases key == e.1 <;> rfl

@[simp]
theorem get?_rename (r : Roster α) (key : Name) :
    (r.rename f g).get? (f key) = (r.get? key).map g :=
  lookup_map f g key r.entries

theorem putEntry_map (key : Name) (value : α) (es : List (Name × α)) :
    putEntry (f key) (g value) (es.map (Prod.map f g)) =
      (putEntry key value es).map (Prod.map f g) := by
  induction es with
  | nil => rfl
  | cons e es ih =>
      rw [List.map_cons, putEntry, putEntry, Prod.map_fst]
      by_cases he : e.1 = key
      · rw [if_pos he, if_pos (congrArg f he)]
        rfl
      · rw [if_neg he, if_neg (f.injective.ne he), ih]
        rfl

@[simp]
theorem rename_put (r : Roster α) (key : Name) (value : α) :
    (r.put key value).rename f g = (r.rename f g).put (f key) (g value) := by
  simp only [rename, put, putEntry_map]

theorem rename_ofList (es : List (Name × α)) :
    (ofList es).rename f g = ofList (es.map (Prod.map f g)) := by
  have hfold : ∀ r : Roster α, (es.foldl (fun r e => r.put e.1 e.2) r).rename f g =
      (es.map (Prod.map f g)).foldl (fun r e => r.put e.1 e.2) (r.rename f g) := by
    induction es with
    | nil => exact fun _ => rfl
    | cons e es ih =>
        intro r
        rw [List.foldl_cons, ih, rename_put]
        rfl
  exact hfold empty

end Roster

/-! ## Operations, graphs and schedules -/

namespace Node

/-- Renames the output and the inputs. -/
def rename (n : Node) : Node where
  output := f n.output
  inputs := n.inputs.map f

theorem map_output_rename (nodes : List Node) :
    (nodes.map (rename f)).map output = (nodes.map output).map f := by
  rw [List.map_map, List.map_map]
  rfl

end Node

/-- Renames the operations. What was produced once, and what was produced at all, still is. -/
def Graph.rename (g : Graph) : Graph where
  nodes := g.nodes.map (Node.rename f)
  nodup_outputs := by
    rw [Node.map_output_rename]
    exact g.nodup_outputs.map f.injective
  closed := by
    intro n hn x hx
    obtain ⟨m, hm, rfl⟩ := List.mem_map.1 hn
    obtain ⟨y, hy, rfl⟩ := List.mem_map.1 hx
    rw [Node.map_output_rename]
    exact List.mem_map_of_mem (g.closed m hm y hy)

/-- Renames the operations. -/
def Schedule.rename (s : Schedule) : Schedule where
  nodes := s.nodes.map (Node.rename f)

/-! ## Plans -/

/-- Renames the values that are read. -/
def Liveness.rename (l : Liveness) : Liveness where
  lastReads := l.lastReads.rename f id

/-- Renames the value. -/
def Record.rename (r : Record) : Record :=
  { r with output := f r.output }

/-- Renames the values that have slots, and the values that are read. -/
def Allocation.rename (a : Allocation) : Allocation :=
  { a with records := a.records.rename f (Record.rename f), liveness := a.liveness.rename f }

/-- Renames the values of a plan. -/
def Plan.rename (p : Plan) : Plan where
  schedule := p.schedule.rename f
  allocation := p.allocation.rename f

/-! ## Outcomes -/

/-- Renames the values that an error names. -/
def Error.rename : Error → Error
  | duplicateOutput output => duplicateOutput (f output)
  | unknownInput node input => unknownInput (f node) (f input)
  | cycleDetected path => cycleDetected (path.map f)
  | outOfOrder node input => outOfOrder (f node) (f input)
  | invalidConfig reason => invalidConfig reason

/-- Changes the result of a computation, or renames its error. -/
def renameOutcome (g : α → β) (x : Except Error α) : Except Error β :=
  (x.map g).mapError (Error.rename f)

/-- Computations in two steps are renamed step by step. -/
theorem renameOutcome_bind {α' β' : Type} {g : α → β} {g' : α' → β'} {x : Except Error α}
    {k : α → Except Error α'} {k' : β → Except Error β'}
    (h : ∀ a, k' (g a) = renameOutcome f g' (k a)) :
    (renameOutcome f g x >>= k') = renameOutcome f g' (x >>= k) := by
  cases x with
  | ok a => exact h a
  | error e => rfl

end SlotPlan
