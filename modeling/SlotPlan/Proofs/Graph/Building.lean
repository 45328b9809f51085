import SlotPlan.Proofs.Graph.Resorting

/-!
# Building graphs

A list of operations has a graph if these are the operations of any graph at all
(`Graph.build_eq_ok_iff`), that is, if no value is produced twice and every value that is read is
produced, before its reader or after it (`Graph.exists_build_iff`). The graph knows each of them by the
value that it produces, and no others (`Graph.tells_of_getElem?`, `Graph.tells_of_not_mem`).

Otherwise the first repeated output is reported (`Graph.build_eq_duplicateOutput_iff`), and if there is
none, the first dangling input (`Graph.build_eq_unknownInput_iff`).
-/

set_option autoImplicit false

namespace SlotPlan

namespace Graph

variable {nodes : List Node}

theorem build_eq_ok_iff {g : Graph} : build nodes = .ok g ↔ g.nodes = nodes := by
  constructor
  · intro h
    unfold build at h
    split at h
    · cases h
    · split at h
      · cases h
      · cases h
        rfl
  · rintro rfl
    exact build_nodes g

theorem build_of_repeat {output : Name}
    (h : firstRepeat? [] (nodes.map Node.output) = some output) :
    build nodes = .error (.duplicateOutput output) := by
  unfold build
  split
  · rename_i output' h'
    cases h.symm.trans h'
    rfl
  · rename_i h'
    cases h.symm.trans h'

theorem build_of_dangling (hrepeat : firstRepeat? [] (nodes.map Node.output) = none)
    {node input : Name}
    (h : firstDangling? (nodes.map Node.output) nodes = some (node, input)) :
    build nodes = .error (.unknownInput node input) := by
  unfold build
  split
  · rename_i output h'
    cases hrepeat.symm.trans h'
  · split
    · rename_i node' input' h'
      cases h.symm.trans h'
      rfl
    · rename_i h'
      cases h.symm.trans h'

theorem build_eq_error_iff {e : Error} :
    build nodes = .error e ↔
      (∃ output, firstRepeat? [] (nodes.map Node.output) = some output ∧
        e = .duplicateOutput output) ∨
      firstRepeat? [] (nodes.map Node.output) = none ∧
        ∃ node input, firstDangling? (nodes.map Node.output) nodes = some (node, input) ∧
          e = .unknownInput node input := by
  constructor
  · intro h
    cases hrepeat : firstRepeat? [] (nodes.map Node.output) with
    | some output =>
        rw [build_of_repeat hrepeat] at h
        cases h
        exact .inl ⟨output, rfl, rfl⟩
    | none =>
        cases hdangling : firstDangling? (nodes.map Node.output) nodes with
        | some dangling =>
            rw [build_of_dangling hrepeat hdangling] at h
            cases h
            exact .inr ⟨rfl, _, _, rfl, rfl⟩
        | none =>
            -- Without a fault the operations are those of a graph.
            have hok := build_nodes ⟨nodes, (firstRepeat?_eq_none_iff.1 hrepeat).1,
              firstDangling?_eq_none_iff.1 hdangling⟩
            cases hok.symm.trans h
  · rintro (⟨output, hrepeat, rfl⟩ | ⟨hrepeat, node, input, hdangling, rfl⟩)
    · exact build_of_repeat hrepeat
    · exact build_of_dangling hrepeat hdangling

/-- Operations have a graph exactly if no value is produced twice and none is missing. -/
theorem exists_build_iff :
    (∃ g, build nodes = .ok g) ↔ (nodes.map Node.output).Nodup ∧
      ∀ n ∈ nodes, ∀ x ∈ n.inputs, x ∈ nodes.map Node.output := by
  simp only [build_eq_ok_iff]
  constructor
  · rintro ⟨g, rfl⟩
    exact ⟨g.nodup_outputs, g.closed⟩
  · rintro ⟨hnodup, hclosed⟩
    exact ⟨⟨nodes, hnodup, hclosed⟩, rfl⟩

/-! ## What a graph says about a value -/

/-- What the graph says about a value: `found` is the operation that produces it, with its place in
the order of declaration, or nothing if there is no such operation. -/
structure Tells (g : Graph) (value : Name) (found : Option (Node × Nat)) : Prop where
  /-- The operation that produces the value. -/
  producer? : g.producer? value = found.map Prod.fst
  /-- The inputs of that operation. -/
  inputsOf? : g.inputsOf? value = found.map fun (n, _) => n.inputs
  /-- Whether there is such an operation. -/
  contains : g.contains value = found.isSome
  /-- The place of that operation. -/
  indexOf? : g.indexOf? value = found.map Prod.snd

/-- What a graph says about a value follows from the operation and the place that it finds. -/
theorem Tells.of_producer? {g : Graph} {value : Name} {found : Option (Node × Nat)}
    (hproducer : g.producer? value = found.map Prod.fst)
    (hindex : g.indexOf? value = found.map Prod.snd) : g.Tells value found where
  producer? := hproducer
  inputsOf? := by rw [Graph.inputsOf?, hproducer, Option.map_map]; rfl
  contains := by rw [Graph.contains, hproducer, Option.isSome_map]
  indexOf? := hindex

/-- The graph finds every operation, and its place, by the value that it produces. -/
theorem tells_of_getElem? {g : Graph} {i : Nat} {n : Node} (h : g.nodes[i]? = some n) :
    g.Tells n.output (some (n, i)) := by
  apply Tells.of_producer?
  · exact producer?_eq_some_iff.2 ⟨List.mem_of_getElem? h, rfl⟩
  · obtain ⟨hi, hn⟩ := List.getElem?_eq_some_iff.1 h
    apply List.findIdx?_eq_some_iff_getElem.2
    refine ⟨hi, by rw [hn]; exact decide_eq_true rfl, ?_⟩
    intro j hj heq
    -- An operation before it with the same output would make the output a repeated one.
    have hne := List.pairwise_iff_getElem.1 (List.pairwise_map.1 g.nodup_outputs) j i
      (Nat.lt_trans hj hi) hi hj
    exact hne (by rw [hn]; exact of_decide_eq_true heq)

theorem tells_of_not_mem {g : Graph} {value : Name} (h : value ∉ g.outputs) :
    g.Tells value none := by
  apply Tells.of_producer?
  · exact Option.eq_none_iff_forall_ne_some.2 fun n hn => h (mem_outputs_of_producer? hn)
  · apply List.findIdx?_eq_none_iff.2
    intro n hn
    exact decide_eq_false fun heq => h (heq ▸ mem_outputs_of_mem hn)

/-! ## What is reported -/

/-- The first operation whose output occurred before it produces the value `output`. -/
def FirstRepeat (nodes : List Node) (output : Name) : Prop :=
  ∃ before n after, nodes = before ++ n :: after ∧ (before.map Node.output).Nodup ∧
    n.output ∈ before.map Node.output ∧ n.output = output

/-- The first operation that reads a value which nothing produces is the one that produces `node`,
and `input` is the first such value among its inputs. -/
def FirstDangling (nodes : List Node) (node input : Name) : Prop :=
  ∃ before n after earlier later, nodes = before ++ n :: after ∧
    (∀ m ∈ before, ∀ x ∈ m.inputs, x ∈ nodes.map Node.output) ∧ n.output = node ∧
    n.inputs = earlier ++ input :: later ∧ (∀ x ∈ earlier, x ∈ nodes.map Node.output) ∧
    input ∉ nodes.map Node.output

theorem firstRepeat?_nil_eq_none_iff {xs : List Name} : firstRepeat? [] xs = none ↔ xs.Nodup := by
  rw [firstRepeat?_eq_none_iff]
  exact and_iff_left fun _ _ => List.not_mem_nil

/-- The search finds the name behind the longest part of the list that has no repeat. -/
theorem firstRepeat?_eq_some_iff {xs : List Name} {x : Name} :
    ∀ {seen : List Name}, firstRepeat? seen xs = some x ↔ ∃ before after, xs = before ++ x :: after ∧
      firstRepeat? seen before = none ∧ (x ∈ before ∨ x ∈ seen) := by
  induction xs with
  | nil =>
      intro seen
      refine iff_of_false (fun h => nomatch h) ?_
      rintro ⟨before, after, h, -⟩
      cases before <;> cases h
  | cons y ys ih =>
      intro seen
      by_cases hy : y ∈ seen
      · -- The search ends at the first name, so nothing comes before the one it finds.
        rw [firstRepeat?, if_pos hy]
        constructor
        · intro h
          cases h
          exact ⟨[], ys, rfl, rfl, .inr hy⟩
        · rintro ⟨before, after, hsplit, hbefore, -⟩
          cases before with
          | nil =>
              cases hsplit
              rfl
          | cons b before =>
              cases hsplit
              rw [firstRepeat?, if_pos hy] at hbefore
              cases hbefore
      · rw [firstRepeat?, if_neg hy, ih]
        constructor
        · rintro ⟨before, after, rfl, hbefore, hx⟩
          refine ⟨y :: before, after, rfl, ?_, ?_⟩
          · rwa [firstRepeat?, if_neg hy]
          · rw [List.mem_cons] at hx ⊢
            tauto
        · rintro ⟨before, after, hsplit, hbefore, hx⟩
          cases before with
          | nil =>
              cases hsplit
              exact absurd (hx.resolve_left List.not_mem_nil) hy
          | cons b before =>
              cases hsplit
              rw [firstRepeat?, if_neg hy] at hbefore
              rw [List.mem_cons] at hx
              refine ⟨before, after, rfl, hbefore, ?_⟩
              rw [List.mem_cons]
              tauto

theorem firstRepeat_iff {output : Name} :
    FirstRepeat nodes output ↔ firstRepeat? [] (nodes.map Node.output) = some output := by
  rw [firstRepeat?_eq_some_iff]
  constructor
  · rintro ⟨before, n, after, rfl, hnodup, hmem, rfl⟩
    refine ⟨before.map Node.output, after.map Node.output, ?_, ?_, .inl hmem⟩
    · rw [List.map_append, List.map_cons]
    · exact firstRepeat?_nil_eq_none_iff.2 hnodup
  · rintro ⟨before, after, hsplit, hbefore, hmem⟩
    obtain ⟨nodes₁, nodes₂, rfl, rfl, hrest⟩ := List.map_eq_append_iff.1 hsplit
    obtain ⟨n, nodes₃, rfl, rfl, -⟩ := List.map_eq_cons_iff.1 hrest
    exact ⟨nodes₁, n, nodes₃, rfl, firstRepeat?_nil_eq_none_iff.1 hbefore,
      hmem.resolve_right List.not_mem_nil, rfl⟩

theorem firstDangling_iff {node input : Name} :
    FirstDangling nodes node input ↔
      firstDangling? (nodes.map Node.output) nodes = some (node, input) := by
  rw [firstDangling?, List.findSome?_eq_some_iff]
  constructor
  · rintro ⟨before, n, after, earlier, later, hsplit, hbefore, rfl, hinputs, hearlier, hmissing⟩
    refine ⟨before, n, after, hsplit, ?_, by simpa using hbefore⟩
    rw [List.find?_eq_some_iff_append.2 ⟨by simpa using hmissing, earlier, later, hinputs,
      by simpa using hearlier⟩]
    rfl
  · rintro ⟨before, n, after, hsplit, hn, hbefore⟩
    obtain ⟨x, hfind, heq⟩ := Option.map_eq_some_iff.1 hn
    cases heq
    obtain ⟨hmissing, earlier, later, hinputs, hearlier⟩ := List.find?_eq_some_iff_append.1 hfind
    exact ⟨before, n, after, earlier, later, hsplit, by simpa using hbefore, rfl, hinputs,
      by simpa using hearlier, by simpa using hmissing⟩

/-- Some output is the first repeated one if outputs are repeated at all. -/
theorem exists_firstRepeat_iff :
    (∃ output, FirstRepeat nodes output) ↔ ¬ (nodes.map Node.output).Nodup := by
  simp only [firstRepeat_iff, ← Option.ne_none_iff_exists', ne_eq, firstRepeat?_nil_eq_none_iff]

/-- Some input is the first dangling one if inputs dangle at all. -/
theorem exists_firstDangling_iff :
    (∃ node input, FirstDangling nodes node input) ↔
      ∃ n ∈ nodes, ∃ x ∈ n.inputs, x ∉ nodes.map Node.output := by
  have hsome : (∃ node input, FirstDangling nodes node input) ↔
      firstDangling? (nodes.map Node.output) nodes ≠ none := by
    simp only [firstDangling_iff, Option.ne_none_iff_exists', Prod.exists]
  rw [hsome, ne_eq, firstDangling?_eq_none_iff]
  push Not
  rfl

/-- **A repeated output is reported, whatever dangles**: it is that of the first operation whose output
occurred before it. -/
theorem build_eq_duplicateOutput_iff {output : Name} :
    build nodes = .error (.duplicateOutput output) ↔ FirstRepeat nodes output := by
  rw [build_eq_error_iff, firstRepeat_iff]
  constructor
  · rintro (⟨output', hrepeat, heq⟩ | ⟨-, node, input, -, heq⟩)
    · cases heq
      exact hrepeat
    · cases heq
  · intro hrepeat
    exact .inl ⟨output, hrepeat, rfl⟩

/-- **If no output is repeated, a dangling input is reported**: the first one of the first operation
that has one. -/
theorem build_eq_unknownInput_iff {node input : Name} :
    build nodes = .error (.unknownInput node input) ↔
      (nodes.map Node.output).Nodup ∧ FirstDangling nodes node input := by
  rw [build_eq_error_iff, firstDangling_iff, firstRepeat?_nil_eq_none_iff]
  constructor
  · rintro (⟨output, -, heq⟩ | ⟨hrepeat, node', input', hdangling, heq⟩)
    · cases heq
    · cases heq
      exact ⟨hrepeat, hdangling⟩
  · rintro ⟨hrepeat, hdangling⟩
    exact .inr ⟨hrepeat, node, input, hdangling, rfl⟩

/-- **What becomes of a list of operations.** It has a graph exactly if no value is produced twice and
every value that is read is produced. The graph has these operations, and finds each of them, with its
place, by the value that it produces. If outputs are repeated, the first repeated one is reported, also
if inputs dangle; otherwise, if inputs dangle, the first dangling one. -/
theorem build_characterised (nodes : List Node) :
    ((∃ g, build nodes = .ok g) ↔ (nodes.map Node.output).Nodup ∧
        ∀ n ∈ nodes, ∀ x ∈ n.inputs, x ∈ nodes.map Node.output) ∧
      (∀ g, build nodes = .ok g → g.nodes = nodes ∧
        (∀ i n, nodes[i]? = some n → g.Tells n.output (some (n, i))) ∧
        ∀ x, x ∉ nodes.map Node.output → g.Tells x none) ∧
      (∀ output, build nodes = .error (.duplicateOutput output) ↔ FirstRepeat nodes output) ∧
      ((∃ output, FirstRepeat nodes output) ↔ ¬ (nodes.map Node.output).Nodup) ∧
      (∀ node input, build nodes = .error (.unknownInput node input) ↔
        (nodes.map Node.output).Nodup ∧ FirstDangling nodes node input) ∧
      ((∃ node input, FirstDangling nodes node input) ↔
        ∃ n ∈ nodes, ∃ x ∈ n.inputs, x ∉ nodes.map Node.output) := by
  refine ⟨exists_build_iff, ?contents, fun _ => build_eq_duplicateOutput_iff,
    exists_firstRepeat_iff, fun _ _ => build_eq_unknownInput_iff, exists_firstDangling_iff⟩
  case contents =>
    intro g hbuild
    obtain rfl := build_eq_ok_iff.1 hbuild
    exact ⟨rfl, fun i n hn => tells_of_getElem? hn, fun x hx => tells_of_not_mem hx⟩

/-- The first list forms a graph, although `c` reads itself and a value that is produced later. In the
second one two values are produced twice, and `z` dangles before that. In the third one nothing is
repeated, and two operations have inputs that dangle. -/
theorem build_characterised_of_faults :
    let whole : List Node := [⟨"c", ["a", "c"]⟩, ⟨"a", []⟩]
    let repeated : List Node := [⟨"a", ["z"]⟩, ⟨"b", []⟩, ⟨"b", ["a"]⟩, ⟨"a", []⟩]
    let dangling : List Node := [⟨"a", ["c"]⟩, ⟨"b", ["a", "y", "z"]⟩, ⟨"c", ["x"]⟩]
    (∃ g, build whole = .ok g ∧ g.producer? "a" = some ⟨"a", []⟩ ∧ g.indexOf? "a" = some 1 ∧
        g.contains "z" = false) ∧
      build repeated = .error (.duplicateOutput "b") ∧
      build dangling = .error (.unknownInput "b" "y") := by
  intro whole repeated dangling
  obtain ⟨hok, hcontents, -⟩ := build_characterised whole
  obtain ⟨-, -, hrepeated, -⟩ := build_characterised repeated
  obtain ⟨-, -, -, -, hdangling, -⟩ := build_characterised dangling
  refine ⟨?_, (hrepeated "b").2 ?_, (hdangling "b" "y").2 ⟨by decide, ?_⟩⟩
  · obtain ⟨g, hbuild⟩ := hok.2 (by decide)
    obtain ⟨-, htells, hunknown⟩ := hcontents g hbuild
    have ha : g.Tells "a" (some (⟨"a", []⟩, 1)) := htells 1 ⟨"a", []⟩ rfl
    exact ⟨g, hbuild, ha.producer?, ha.indexOf?, (hunknown "z" (by decide)).contains⟩
  · exact ⟨[⟨"a", ["z"]⟩, ⟨"b", []⟩], ⟨"b", ["a"]⟩, [⟨"a", []⟩], rfl, by decide, by decide, rfl⟩
  · exact ⟨[⟨"a", ["c"]⟩], ⟨"b", ["a", "y", "z"]⟩, [⟨"c", ["x"]⟩], ["a"], ["z"], rfl, by decide, rfl,
      rfl, by decide, by decide⟩

end Graph

end SlotPlan
