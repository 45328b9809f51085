import Mathlib.Data.List.Perm.Basic
import Mathlib.Logic.Relation
import SlotPlan.Graph
import SlotPlan.Proofs.Schedule.Validity

/-!
# Which values depend on which

An operation depends on the values it reads, so the values of a graph stand in a relation
(`Graph.Reads`), and the graph is acyclic when no value depends on itself, directly or through others
(`Graph.Acyclic`).

A valid schedule ranks its values by their positions, so none of them depends on itself
(`Graph.not_onCycle_of_valid`). If it holds all operations, the graph is acyclic
(`Graph.acyclic_of_valid`), and every value is needed by some root (`Graph.exists_root_of_valid`).
-/

set_option autoImplicit false

namespace SlotPlan

namespace Graph

/-- The operation that produces `x` reads `y`. -/
def Reads (g : Graph) (x y : Name) : Prop :=
  ∃ n ∈ g.nodes, n.output = x ∧ y ∈ n.inputs

/-- The value `x` depends on itself, directly or through others. -/
def OnCycle (g : Graph) (x : Name) : Prop :=
  Relation.TransGen g.Reads x x

/-- No value depends on itself, whether or not a root depends on it. -/
def Acyclic (g : Graph) : Prop :=
  ∀ x, ¬ g.OnCycle x

/-- The value `x`, or one that it depends on, depends on itself. -/
def ReachesCycle (g : Graph) (x : Name) : Prop :=
  ∃ y, Relation.ReflTransGen g.Reads x y ∧ g.OnCycle y

/-- The value `x` is a root, or some root depends on it. -/
def Needed (g : Graph) (x : Name) : Prop :=
  ∃ r ∈ g.roots, Relation.ReflTransGen g.Reads r x

/-! ## Operations and roots -/

theorem mem_outputs_of_mem {g : Graph} {n : Node} (h : n ∈ g.nodes) : n.output ∈ g.outputs :=
  List.mem_map_of_mem h

/-- A value is produced by one operation. -/
theorem eq_of_output_eq {g : Graph} {m n : Node} (hm : m ∈ g.nodes) (hn : n ∈ g.nodes)
    (h : m.output = n.output) : m = n :=
  List.inj_on_of_nodup_map g.nodup_outputs hm hn h

theorem exists_producer? {g : Graph} {x : Name} (h : x ∈ g.outputs) :
    ∃ n, g.producer? x = some n := by
  obtain ⟨n, hn, rfl⟩ := List.mem_map.1 h
  rw [← Option.isSome_iff_exists, producer?, List.find?_isSome]
  exact ⟨n, hn, decide_eq_true rfl⟩

theorem mem_outputs_of_producer? {g : Graph} {x : Name} {n : Node} (h : g.producer? x = some n) :
    x ∈ g.outputs := by
  rw [← output_of_producer?_eq_some h]
  exact mem_outputs_of_mem (mem_of_producer?_eq_some h)

theorem producer?_eq_some_iff {g : Graph} {x : Name} {n : Node} :
    g.producer? x = some n ↔ n ∈ g.nodes ∧ n.output = x := by
  constructor
  · intro h
    exact ⟨mem_of_producer?_eq_some h, output_of_producer?_eq_some h⟩
  · rintro ⟨hn, rfl⟩
    obtain ⟨m, hm⟩ := exists_producer? (mem_outputs_of_mem hn)
    obtain rfl := eq_of_output_eq (mem_of_producer?_eq_some hm) hn (output_of_producer?_eq_some hm)
    exact hm

/-- What can be read is produced. -/
theorem mem_outputs_of_reads {g : Graph} {x y : Name} (h : g.Reads x y) :
    x ∈ g.outputs ∧ y ∈ g.outputs := by
  obtain ⟨n, hn, rfl, hy⟩ := h
  exact ⟨mem_outputs_of_mem hn, g.closed n hn y hy⟩

theorem mem_outputs_of_onCycle {g : Graph} {x : Name} (h : g.OnCycle x) : x ∈ g.outputs := by
  obtain ⟨y, hreads, -⟩ := Relation.TransGen.head'_iff.1 h
  exact (mem_outputs_of_reads hreads).1

theorem isRead_iff {g : Graph} {x : Name} : g.isRead x = true ↔ ∃ n ∈ g.nodes, x ∈ n.inputs := by
  simp only [isRead, List.any_eq_true, decide_eq_true_eq]

/-- The roots are the values that no operation reads. -/
theorem mem_roots_iff {g : Graph} {x : Name} :
    x ∈ g.roots ↔ x ∈ g.outputs ∧ ∀ n ∈ g.nodes, x ∉ n.inputs := by
  rw [roots, List.mem_filter, Bool.not_eq_true', ← Bool.not_eq_true, isRead_iff]
  push Not
  exact Iff.rfl

theorem mem_outputs_of_mem_roots {g : Graph} {x : Name} (h : x ∈ g.roots) : x ∈ g.outputs :=
  (mem_roots_iff.1 h).1

/-! ## Operations with a valid schedule -/

section Scheduled

variable {g : Graph} {s : Schedule}

/-- In a valid schedule of operations of a graph, what a value depends on has a smaller position. -/
theorem idxOf_lt_of_reads (hvalid : s.Valid) (hpart : ∀ n ∈ s.nodes, n ∈ g.nodes) {x y : Name}
    (hx : x ∈ s.outputs) (h : g.Reads x y) :
    y ∈ s.outputs ∧ s.outputs.idxOf y < s.outputs.idxOf x := by
  obtain ⟨n, hn, rfl, hy⟩ := h
  -- The value has one operation in the graph, so the one that is scheduled reads `y`.
  obtain ⟨m, hm, hmn⟩ := List.mem_map.1 hx
  obtain rfl := eq_of_output_eq (hpart m hm) hn hmn
  have hlt := hvalid.idxOf_lt_idxOf hm hy
  exact ⟨List.idxOf_lt_length_iff.1 (Nat.lt_trans hlt (List.idxOf_lt_length_of_mem hx)), hlt⟩

theorem idxOf_lt_of_transGen (hvalid : s.Valid) (hpart : ∀ n ∈ s.nodes, n ∈ g.nodes) {x y : Name}
    (hx : x ∈ s.outputs) (h : Relation.TransGen g.Reads x y) :
    y ∈ s.outputs ∧ s.outputs.idxOf y < s.outputs.idxOf x := by
  induction h with
  | single h => exact idxOf_lt_of_reads hvalid hpart hx h
  | tail _ h ih =>
      obtain ⟨hmem, hlt⟩ := ih
      obtain ⟨hmem', hlt'⟩ := idxOf_lt_of_reads hvalid hpart hmem h
      exact ⟨hmem', Nat.lt_trans hlt' hlt⟩

/-- **No value of a valid schedule depends on itself**: positions fall along every path of
dependencies, so no path comes back to its start. -/
theorem not_onCycle_of_valid (hvalid : s.Valid) (hpart : ∀ n ∈ s.nodes, n ∈ g.nodes) {x : Name}
    (hx : x ∈ s.outputs) : ¬ g.OnCycle x := by
  intro hcycle
  exact Nat.lt_irrefl _ (idxOf_lt_of_transGen hvalid hpart hx hcycle).2

/-- Neither does anything that a value of a valid schedule depends on. -/
theorem not_reachesCycle_of_valid (hvalid : s.Valid) (hpart : ∀ n ∈ s.nodes, n ∈ g.nodes)
    {x : Name} (hx : x ∈ s.outputs) : ¬ g.ReachesCycle x := by
  rintro ⟨y, hreach, hcycle⟩
  have hy : y ∈ s.outputs := by
    rcases Relation.reflTransGen_iff_eq_or_transGen.1 hreach with rfl | hreach
    · exact hx
    · exact (idxOf_lt_of_transGen hvalid hpart hx hreach).1
  exact not_onCycle_of_valid hvalid hpart hy hcycle

/-! ## Graphs with a valid schedule -/

theorem mem_outputs_iff_of_perm (hperm : s.nodes.Perm g.nodes) {x : Name} :
    x ∈ s.outputs ↔ x ∈ g.outputs :=
  (hperm.map Node.output).mem_iff

/-- **A graph that has a valid schedule is acyclic.** -/
theorem acyclic_of_valid (hvalid : s.Valid) (hperm : s.nodes.Perm g.nodes) : g.Acyclic := by
  intro x hcycle
  have hx := (mem_outputs_iff_of_perm hperm).2 (mem_outputs_of_onCycle hcycle)
  exact not_onCycle_of_valid hvalid (fun n hn => hperm.mem_iff.1 hn) hx hcycle

/-- In a graph that has a valid schedule, every value is a root or is needed by one. -/
theorem exists_root_of_valid (hvalid : s.Valid) (hperm : s.nodes.Perm g.nodes) :
    ∀ {x : Name}, x ∈ g.outputs → g.Needed x := by
  -- A reader stands behind what it reads, so going from reader to reader comes to an end.
  have hclimb : ∀ (room : Nat) (x : Name), x ∈ g.outputs →
      s.outputs.length - s.outputs.idxOf x = room → g.Needed x := by
    intro room
    induction room using Nat.strongRecOn with
    | ind room ih =>
      intro x hx hroom
      by_cases hread : ∃ n ∈ g.nodes, x ∈ n.inputs
      · obtain ⟨n, hn, hxn⟩ := hread
        have hreads : g.Reads n.output x := ⟨n, hn, rfl, hxn⟩
        have hout := (mem_outputs_iff_of_perm hperm).2 (mem_outputs_of_mem hn)
        obtain ⟨-, hlt⟩ := idxOf_lt_of_reads hvalid (fun n hn => hperm.mem_iff.1 hn) hout hreads
        have hlen := List.idxOf_lt_length_of_mem hout
        obtain ⟨r, hr, hreach⟩ := ih _ (by omega) n.output (mem_outputs_of_mem hn) rfl
        exact ⟨r, hr, hreach.tail hreads⟩
      · refine ⟨x, mem_roots_iff.2 ⟨hx, fun n hn hxn => hread ⟨n, hn, hxn⟩⟩, ?_⟩
        exact Relation.ReflTransGen.refl
  intro x hx
  exact hclimb _ x hx rfl

end Scheduled

end Graph

end SlotPlan
