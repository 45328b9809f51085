import SlotPlan.Proofs.Graph.Traversal

/-!
# What a visit depends on, and what it emits

The recursion asks a graph for nothing but the operations of the values that it meets. So two
graphs that agree on values which read only one another have the same visits to these values
(`Traversal.visitAll_eq_of_sameOn`).

A visit emits a block of operations (`Traversal.Emits`). It enters every operation but the one it
was asked for from a reader, and emits the reader later (`Traversal.ReadLater`). A root has no
reader, so the roots in the blocks are those that were asked for, in the order of their visits
(`Traversal.exists_emits_roots`).
-/

set_option autoImplicit false

namespace SlotPlan

/-- On the values that are `known` two graphs have the same operations, and these read only values
that are known. -/
structure Graph.SameOn (g g' : Graph) (known : Name → Prop) : Prop where
  /-- A known value is produced by the same operation, or by none in both graphs. -/
  producer?_eq : ∀ x, known x → g'.producer? x = g.producer? x
  /-- What is read to produce a known value is known. -/
  known_of_mem : ∀ x n, known x → g.producer? x = some n → ∀ y ∈ n.inputs, known y

namespace Traversal

variable {g g' : Graph}

/-! ## What a visit depends on -/

/-- **Visits only depend on the operations of what they meet.** -/
theorem visitAll_eq_of_sameOn {known : Name → Prop} (h : g.SameOn g' known) {xs : List Name}
    (hxs : ∀ x ∈ xs, known x) (t : Traversal) : visitAll g' t xs = visitAll g t xs := by
  have hvisits : (∀ t x, known x → visit g' t x = visit g t x) ∧
      ∀ t xs, (∀ x ∈ xs, known x) → visitAll g' t xs = visitAll g t xs := by
    apply visits_induction (g := g)
    case marked =>
      intro t x hx _
      rw [visit_of_mem hx, visit_of_mem hx]
    case absent =>
      intro t x hx hproducer hknown
      have hproducer' := (h.producer?_eq x hknown).trans hproducer
      rw [visit_of_producer?_eq_none hx hproducer, visit_of_producer?_eq_none hx hproducer']
    case enter =>
      intro t x n hx hproducer hinputs hknown
      have hproducer' := (h.producer?_eq x hknown).trans hproducer
      rw [visit_of_producer? hx hproducer, visit_of_producer? hx hproducer',
        hinputs (h.known_of_mem x n hknown hproducer)]
    case nil =>
      intro t _
      rfl
    case cons =>
      intro t x xs hfirst hrest hknown
      rw [visitAll_cons, visitAll_cons, hfirst (hknown x List.mem_cons_self)]
      exact hrest fun y hy => hknown y (List.mem_cons_of_mem _ hy)
  exact hvisits.2 t xs hxs

/-! ## Blocks -/

/-- Wherever a list of operations, the latest first, is cut, the value of the operation behind the
cut was asked for, or a later operation reads it. -/
def ReadLater (asked : List Name) (block : List Node) : Prop :=
  ∀ later n earlier, block = later ++ n :: earlier →
    n.output ∈ asked ∨ ∃ m ∈ later, n.output ∈ m.inputs

namespace ReadLater

theorem nil (asked : List Name) : ReadLater asked [] := by
  intro later n earlier h
  cases later <;> cases h

/-- An operation that is emitted after its inputs is a later reader of them. -/
theorem cons {n : Node} {block : List Node} (h : ReadLater n.inputs block) :
    ReadLater [n.output] (n :: block) := by
  intro later m earlier hsplit
  cases later with
  | nil =>
      cases hsplit
      exact .inl (List.mem_singleton.2 rfl)
  | cons l later =>
      cases hsplit
      rcases h later m earlier rfl with hasked | ⟨reader, hreader, hm⟩
      · exact .inr ⟨n, List.mem_cons_self, hasked⟩
      · exact .inr ⟨reader, List.mem_cons_of_mem _ hreader, hm⟩

theorem append {asked asked' : List Name} {block block' : List Node} (h : ReadLater asked block)
    (h' : ReadLater asked' block') : ReadLater (asked ++ asked') (block' ++ block) := by
  intro later n earlier hsplit
  -- The cut is in the earlier block, between the two, or in the later block.
  rcases List.append_eq_append_iff.1 hsplit with ⟨middle, rfl, hblock⟩ | ⟨middle, rfl, hmiddle⟩
  · rcases h middle n earlier hblock with hasked | ⟨m, hm, hread⟩
    · exact .inl (List.mem_append_left _ hasked)
    · exact .inr ⟨m, List.mem_append_right _ hm, hread⟩
  · cases middle with
    | nil =>
        rcases h [] n earlier hmiddle.symm with hasked | ⟨m, hm, -⟩
        · exact .inl (List.mem_append_left _ hasked)
        · cases hm
    | cons l middle =>
        cases hmiddle
        rcases h' later n middle rfl with hasked | hread
        · exact .inl (List.mem_append_right _ hasked)
        · exact .inr hread

end ReadLater

/-- From one state to a later one, visits to the values that were `asked` for have emitted the
operations of `block`, the latest first. -/
structure Emits (g : Graph) (t : Traversal) (asked : List Name) (t' : Traversal)
    (block : List Node) : Prop where
  /-- The block comes on top of what was emitted before. -/
  emitted_eq : t'.emitted = block ++ t.emitted
  /-- The values of the block, and no others, have got a mark. -/
  mem_marked_iff : ∀ x, x ∈ t'.marked ↔ x ∈ t.marked ∨ x ∈ block.map Node.output
  /-- The operations belong to the graph. -/
  mem_nodes : ∀ n ∈ block, n ∈ g.nodes
  /-- Whatever was not asked for is read later in the block. -/
  readLater : ReadLater asked block

namespace Emits

variable {t t' t'' : Traversal} {asked asked' : List Name} {block block' : List Node}

/-- Visits that only return emit nothing. -/
theorem nothing (hemitted : t'.emitted = t.emitted) (hmarked : t'.marked = t.marked) :
    Emits g t asked t' [] where
  emitted_eq := hemitted
  mem_marked_iff := by simp [hmarked]
  mem_nodes := by simp
  readLater := .nil asked

theorem trans (h : Emits g t asked t' block) (h' : Emits g t' asked' t'' block') :
    Emits g t (asked ++ asked') t'' (block' ++ block) where
  emitted_eq := by rw [h'.emitted_eq, h.emitted_eq, List.append_assoc]
  mem_marked_iff := by
    intro x
    rw [h'.mem_marked_iff, h.mem_marked_iff, List.map_append, List.mem_append, or_assoc,
      or_comm (a := x ∈ block'.map Node.output)]
  mem_nodes := by
    intro n hn
    rcases List.mem_append.1 hn with hn | hn
    · exact h'.mem_nodes n hn
    · exact h.mem_nodes n hn
  readLater := h.readLater.append h'.readLater

/-- The block of an operation is that of its inputs, and the operation itself. -/
theorem emit {n : Node} (hn : n ∈ g.nodes) (h : Emits g (t.mark n.output) n.inputs t' block) :
    Emits g t [n.output] (t'.emit n) (n :: block) where
  emitted_eq := congrArg (n :: ·) h.emitted_eq
  mem_marked_iff := by
    intro x
    show x ∈ t'.marked ↔ _
    rw [h.mem_marked_iff, mark, List.mem_append, List.mem_singleton, List.map_cons, List.mem_cons,
      or_assoc]
  mem_nodes := by
    intro m hm
    rcases List.mem_cons.1 hm with rfl | hm
    · exact hn
    · exact h.mem_nodes m hm
  readLater := h.readLater.cons

/-- The roots in a block were asked for, since nothing reads them. -/
theorem mem_asked_of_root (h : Emits g t asked t' block) {x : Name} (hroot : x ∈ g.roots)
    (hx : x ∈ block.map Node.output) : x ∈ asked := by
  obtain ⟨n, hn, rfl⟩ := List.mem_map.1 hx
  obtain ⟨later, earlier, hsplit⟩ := List.append_of_mem hn
  apply (h.readLater later n earlier hsplit).resolve_right
  rintro ⟨m, hm, hread⟩
  have hmem : m ∈ g.nodes := h.mem_nodes m (hsplit ▸ List.mem_append_left _ hm)
  exact (Graph.mem_roots_iff.1 hroot).2 m hmem hread

end Emits

/-- **Visits emit a block**, in which everything that was not asked for is read later. -/
theorem exists_emits_visitAll (g : Graph) (t : Traversal) (xs : List Name) :
    ∃ block, Emits g t xs (visitAll g t xs) block := by
  have hvisits : (∀ t x, ∃ block, Emits g t [x] (visit g t x) block) ∧
      ∀ t xs, ∃ block, Emits g t xs (visitAll g t xs) block := by
    apply visits_induction (g := g)
    case marked =>
      intro t x hx
      refine ⟨[], ?_⟩
      rw [visit_of_mem hx, meet]
      split
      · exact .nothing rfl rfl
      · exact .nothing rfl rfl
    case absent =>
      intro t x hx hproducer
      rw [visit_of_producer?_eq_none hx hproducer]
      exact ⟨[], .nothing rfl rfl⟩
    case enter =>
      rintro t x n hx hproducer ⟨block, hblock⟩
      rw [visit_of_producer? hx hproducer]
      obtain rfl := Graph.output_of_producer?_eq_some hproducer
      exact ⟨n :: block, hblock.emit (Graph.mem_of_producer?_eq_some hproducer)⟩
    case nil =>
      intro t
      exact ⟨[], .nothing rfl rfl⟩
    case cons =>
      rintro t x xs ⟨block, hblock⟩ ⟨block', hblock'⟩
      exact ⟨block' ++ block, hblock.trans hblock'⟩
  exact hvisits.2 t xs

/-! ## Roots -/

/-- A visit to a root that is not marked emits this root last, and no other one. -/
theorem exists_emits_root {t : Traversal} {r : Name} (hroot : r ∈ g.roots) (hr : r ∉ t.marked) :
    ∃ block, Emits g t [r] (visit g t r) block ∧
      (block.map Node.output).filter (· ∈ g.roots) = [r] := by
  obtain ⟨n, hproducer⟩ := Graph.exists_producer? (Graph.mem_outputs_of_mem_roots hroot)
  obtain ⟨block, hblock⟩ := exists_emits_visitAll g (t.mark r) n.inputs
  have hn : n ∈ g.nodes := Graph.mem_of_producer?_eq_some hproducer
  rw [visit_of_producer? hr hproducer]
  obtain rfl := Graph.output_of_producer?_eq_some hproducer
  refine ⟨n :: block, hblock.emit hn, ?_⟩
  -- The rest of the block was asked for by operations, and these ask for no root.
  have hnone : (block.map Node.output).filter (· ∈ g.roots) = [] := by
    rw [List.filter_eq_nil_iff]
    intro x hx hmem
    have hxroot : x ∈ g.roots := of_decide_eq_true hmem
    exact (Graph.mem_roots_iff.1 hxroot).2 n hn (hblock.mem_asked_of_root hxroot hx)
  simp [hroot, hnone]

/-- **Visits to roots emit these roots in the order of the visits, and no other ones.** -/
theorem exists_emits_roots {rs : List Name} :
    ∀ {t : Traversal}, rs.Nodup → (∀ r ∈ rs, r ∈ g.roots ∧ r ∉ t.marked) →
      ∃ block, Emits g t rs (visitAll g t rs) block ∧
        (block.map Node.output).filter (· ∈ g.roots) = rs.reverse := by
  induction rs with
  | nil =>
      intro t _ _
      exact ⟨[], .nothing rfl rfl, rfl⟩
  | cons r rs ih =>
      intro t hnodup hrs
      obtain ⟨hnot, hnodup⟩ := List.nodup_cons.1 hnodup
      obtain ⟨hroot, hr⟩ := hrs r List.mem_cons_self
      obtain ⟨block, hblock, hfilter⟩ := exists_emits_root hroot hr
      -- The other roots have got no mark, since the first block holds no root but `r`.
      have hrest : ∀ r' ∈ rs, r' ∈ g.roots ∧ r' ∉ (visit g t r).marked := by
        intro r' hr'
        obtain ⟨hroot', hunmarked⟩ := hrs r' (List.mem_cons_of_mem _ hr')
        refine ⟨hroot', fun hmarked => ?_⟩
        have hout := ((hblock.mem_marked_iff r').1 hmarked).resolve_left hunmarked
        have heq := List.mem_singleton.1 (hblock.mem_asked_of_root hroot' hout)
        exact hnot (heq ▸ hr')
      obtain ⟨block', hblock', hfilter'⟩ := ih hnodup hrest
      refine ⟨block' ++ block, hblock.trans hblock', ?_⟩
      rw [List.map_append, List.filter_append, hfilter, hfilter', List.reverse_cons]

/-- What the recursion emits from the roots of a graph is a root or read later, and the roots among
it stand in the order of declaration. -/
theorem emits_from_roots (g : Graph) :
    Emits g {} g.roots (visitAll g {} g.roots) (visitAll g {} g.roots).emitted ∧
      ((visitAll g {} g.roots).emitted.map Node.output).filter (· ∈ g.roots) =
        g.roots.reverse := by
  have hnodup : g.roots.Nodup := g.nodup_outputs.filter _
  obtain ⟨block, hblock, hfilter⟩ :=
    exists_emits_roots (t := {}) hnodup fun r hr => ⟨hr, List.not_mem_nil⟩
  have hemitted : (visitAll g {} g.roots).emitted = block :=
    hblock.emitted_eq.trans (List.append_nil block)
  rw [hemitted]
  exact ⟨hblock, hfilter⟩

end Traversal

end SlotPlan
