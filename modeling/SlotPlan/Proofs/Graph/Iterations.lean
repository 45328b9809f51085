import Mathlib.Algebra.GroupWithZero.Nat
import Mathlib.Data.List.Flatten
import Mathlib.Data.List.Perm.Subperm
import SlotPlan.Proofs.Graph.LoopHead

/-!
# How often the loop of a visit goes round

The loop of a visit ends on every graph. To count its rounds, everything that a walk does is written
down (`Graph.sortActs`): it enters an operation, examines an input at a position, or emits an operation;
every round examines or emits once. `Walk.runWithin` is the loop with a limit on its rounds, and the
limit that it needs is the number of rounds that were written down (`Walk.runWithin_eq`).

The account is kept by the state: what has been done is what the cursors of the stack tell, and
everything that there is to do with the operations that have been emitted (`Walk.account`). Every move
adds to the account what it does (`Walk.Reached.account_step`). As no operation is on the stack or
emitted twice, nothing is ever done twice, and sorting goes round once for every operation and once for
every input (`Graph.iterations_of_sort`).
-/

set_option autoImplicit false

namespace SlotPlan

/-! ## Acts -/

/-- One thing that a walk does. -/
inductive Act where
  /-- An operation is put on the stack. -/
  | enter (n : Node)
  /-- The input of an operation at a position is dealt with. -/
  | examine (n : Node) (position : Nat)
  /-- An operation is taken off the stack and emitted. -/
  | emit (n : Node)
deriving DecidableEq

/-- Whether an act is a round of the loop. Operations are entered within a round, or before the first
one. -/
def Act.isRound : Act → Bool
  | enter _ => false
  | examine _ _ => true
  | emit _ => true

/-- The number of rounds of the loop. -/
def rounds (acts : List Act) : Nat :=
  acts.countP Act.isRound

theorem rounds_append (as bs : List Act) : rounds (as ++ bs) = rounds as + rounds bs :=
  List.countP_append

theorem rounds_enter_cons (n : Node) (acts : List Act) : rounds (.enter n :: acts) = rounds acts :=
  List.countP_cons_of_neg Bool.false_ne_true

namespace Walk

/-- What the next round does. -/
def acts (g : Graph) (w : Walk) : List Act :=
  match w.stack with
  | [] => []
  | ⟨n, []⟩ :: _ => [.emit n]
  | ⟨n, input :: pending⟩ :: _ =>
    .examine n (Frame.cursor ⟨n, input :: pending⟩) ::
      match w.marks.get? input with
      | some _ => []
      | none => ((g.producer? input).map Act.enter).toList

/-- What a run does. -/
def runActs (g : Graph) (policy : CyclePolicy) (w : Walk) : List Act :=
  match _h : w.step g policy with
  | .onward w' => w.acts g ++ w'.runActs g policy
  | .idle => []
  | .cycle _ => w.acts g
termination_by w.work g
decreasing_by exact work_lt_of_step _h

/-- What a visit does. -/
def visitActs (g : Graph) (policy : CyclePolicy) (w : Walk) (value : Name) : List Act :=
  match w.marks.get? value, g.producer? value with
  | none, some n => .enter n :: (w.enter n).runActs g policy
  | _, _ => []

/-- What visits do, up to the first one that fails. -/
def visitsActs (g : Graph) (policy : CyclePolicy) : List Name → Walk → List Act
  | [], _ => []
  | x :: xs, w =>
    visitActs g policy w x ++
      match visit g policy w x with
      | .ok w' => visitsActs g policy xs w'
      | .error _ => []

/-- The loop of a visit, with a limit on the number of its rounds. There is no result if the limit is
too low. -/
def runWithin (g : Graph) (policy : CyclePolicy) (limit : Nat) (w : Walk) :
    Option (Except Error Walk) :=
  match w.step g policy, limit with
  | .idle, _ => some (.ok w)
  | _, 0 => none
  | .onward w', limit + 1 => runWithin g policy limit w'
  | .cycle path, _ + 1 => some (.error (.cycleDetected path))

end Walk

/-- What sorting a graph does. -/
def Graph.sortActs (g : Graph) (policy : CyclePolicy) : List Act :=
  Walk.visitsActs g policy (g.starts policy) Walk.start

/-! ## All that is done with an operation -/

/-- What has been done with an operation on the stack. -/
def Frame.acts (f : Frame) : List Act :=
  .enter f.node :: (List.range f.cursor).map (.examine f.node)

/-- All that is done with an operation. -/
def Node.acts (n : Node) : List Act :=
  Frame.acts ⟨n, []⟩ ++ [.emit n]

/-- The operation that something is done with. -/
def Act.node : Act → Node
  | enter n => n
  | examine n _ => n
  | emit n => n

theorem Frame.acts_of_entered (n : Node) : Frame.acts ⟨n, n.inputs⟩ = [.enter n] := by
  rw [Frame.acts, Frame.cursor, Nat.sub_self]
  rfl

/-- Dealing with an input adds one act. -/
theorem Frame.acts_advance {n : Node} {input : Name} {dealt pending : List Name}
    (h : n.inputs = dealt ++ input :: pending) :
    Frame.acts ⟨n, pending⟩ =
      Frame.acts ⟨n, input :: pending⟩ ++ [.examine n (Frame.cursor ⟨n, input :: pending⟩)] := by
  have hnext : n.inputs = (dealt ++ [input]) ++ pending := by
    rw [h, List.append_assoc, List.singleton_append]
  rw [Frame.acts, Frame.acts, Frame.cursor_eq (f := ⟨n, pending⟩) hnext,
    Frame.cursor_eq (f := ⟨n, input :: pending⟩) h, List.length_append, List.length_singleton,
    List.range_succ, List.map_append, List.cons_append]
  rfl

theorem Frame.acts_sublist (f : Frame) : f.acts.Sublist f.node.acts := by
  have hle : f.cursor ≤ Frame.cursor ⟨f.node, []⟩ := f.cursor_le
  have hrange := (List.range_sublist.2 hle).map (Act.examine f.node)
  exact (hrange.cons_cons (.enter f.node)).trans (List.sublist_append_left _ _)

/-- There is one round for every input of an operation, and one to emit it. -/
theorem Node.rounds_acts (n : Node) : rounds n.acts = 1 + n.inputs.length := by
  have hexamine : rounds ((List.range n.inputs.length).map (Act.examine n)) = n.inputs.length := by
    rw [rounds, List.countP_map]
    exact (congrFun List.countP_true _).trans List.length_range
  calc rounds n.acts
      = rounds ((List.range n.inputs.length).map (Act.examine n)) + 1 := rounds_append _ _
    _ = 1 + n.inputs.length := by rw [hexamine, Nat.add_comm]

theorem Node.nodup_acts (n : Node) : n.acts.Nodup := by
  have hexamine : ((List.range n.inputs.length).map (Act.examine n)).Nodup := by
    apply List.nodup_range.map
    intro i j hij
    cases hij
    rfl
  rw [Node.acts, Frame.acts, List.nodup_append, List.nodup_cons]
  refine ⟨⟨by simp, hexamine⟩, List.nodup_singleton _, ?_⟩
  intro a ha b hb
  rw [List.mem_singleton.1 hb]
  rintro rfl
  simp at ha

theorem Act.node_of_mem {a : Act} {n : Node} (h : a ∈ n.acts) : a.node = n := by
  simp only [Node.acts, Frame.acts, List.mem_append, List.mem_cons, List.mem_map,
    List.not_mem_nil, or_false] at h
  rcases h with (rfl | ⟨i, -, rfl⟩) | rfl <;> rfl

/-- What is done with different operations differs. -/
theorem nodup_flatMap_acts {nodes : List Node} (h : nodes.Nodup) :
    (nodes.flatMap Node.acts).Nodup := by
  rw [List.nodup_flatMap]
  refine ⟨fun n _ => n.nodup_acts, h.imp ?_⟩
  intro m n hne a hm hn
  exact hne ((Act.node_of_mem hm).symm.trans (Act.node_of_mem hn))

theorem rounds_flatMap_acts (nodes : List Node) :
    rounds (nodes.flatMap Node.acts) = (nodes.map fun n => 1 + n.inputs.length).sum := by
  rw [rounds, List.countP_flatMap]
  congr 1
  exact List.map_congr_left fun n _ => n.rounds_acts

namespace Walk

variable {g : Graph} {policy : CyclePolicy} {w w' : Walk}

/-! ## The account of a state -/

/-- What has been done, as the state of a walk tells it. -/
def account (w : Walk) : List Act :=
  w.stack.flatMap Frame.acts ++ w.emitted.flatMap Node.acts

theorem account_enter_perm (w : Walk) (n : Node) :
    (w.account ++ [Act.enter n]).Perm (w.enter n).account := by
  show List.Perm _ (((⟨n, n.inputs⟩ : Frame) :: w.stack).flatMap Frame.acts ++ _)
  rw [List.flatMap_cons, Frame.acts_of_entered, List.append_assoc]
  exact List.perm_append_comm

/-- Dealing with the next input of the operation on top. -/
theorem account_advance_perm {n : Node} {input : Name} {dealt pending : List Name}
    {below : List Frame} (htop : w.stack = ⟨n, input :: pending⟩ :: below)
    (hinputs : n.inputs = dealt ++ input :: pending) :
    (w.account ++ [Act.examine n (Frame.cursor ⟨n, input :: pending⟩)]).Perm
      (w.advance n pending below).account := by
  show List.Perm _ (((⟨n, pending⟩ : Frame) :: below).flatMap Frame.acts ++
    w.emitted.flatMap Node.acts)
  rw [account, htop, List.flatMap_cons, List.flatMap_cons, Frame.acts_advance hinputs,
    List.perm_iff_count]
  intro a
  simp only [List.count_append]
  omega

/-- **Every move adds to the account what it does.** -/
theorem Reached.account_step (h : Reached g policy w) (hstep : w.step g policy = .onward w') :
    (w.account ++ w.acts g).Perm w'.account := by
  have hdealt := h.waiting.linked.exists_dealt
  cases move_of_step hstep with
  | @emit n below htop =>
      show List.Perm _ (below.flatMap Frame.acts ++ (n :: w.emitted).flatMap Node.acts)
      simp only [account, acts, htop, List.flatMap_cons, Node.acts, List.perm_iff_count,
        List.count_append]
      omega
  | @pass n input pending below htop hdone =>
      obtain ⟨dealt, hinputs⟩ := hdealt _ (htop ▸ List.mem_cons_self)
      have hperm := account_advance_perm htop hinputs
      simpa only [acts, htop, hdone] using hperm
  | @drop n input pending below htop hunderway hpolicy =>
      obtain ⟨dealt, hinputs⟩ := hdealt _ (htop ▸ List.mem_cons_self)
      -- What is dropped is no part of the account.
      show List.Perm _ (w.advance n pending below).account
      have hperm := account_advance_perm htop hinputs
      simpa only [acts, htop, hunderway] using hperm
  | @enter n m input pending below htop hnew hproducer =>
      obtain ⟨dealt, hinputs⟩ := hdealt _ (htop ▸ List.mem_cons_self)
      have hperm := (account_advance_perm htop hinputs).append_right [Act.enter m]
      have hacts : w.acts g =
          [Act.examine n (Frame.cursor ⟨n, input :: pending⟩)] ++ [Act.enter m] := by
        simp only [acts, htop, hnew, hproducer]
        rfl
      rw [hacts, ← List.append_assoc]
      exact hperm.trans (account_enter_perm _ m)
  | @stray n input pending below htop hproducer =>
      -- The graph is closed, so this move is never made.
      exact absurd hproducer (producer?_ne_none_of_top h.marked h.waiting htop)

/-- The round that finds a cycle has examined an input as well. -/
theorem Reached.account_cycle (h : Reached g policy w) {path : List Name}
    (hstep : w.step g policy = .cycle path) :
    ∃ n input pending below, w.stack = ⟨n, input :: pending⟩ :: below ∧
      (w.account ++ w.acts g).Perm (w.advance n pending below).account := by
  obtain ⟨-, n, input, pending, below, htop, hunderway, -⟩ := step_eq_cycle_iff.1 hstep
  obtain ⟨dealt, hinputs⟩ := h.waiting.linked.exists_dealt _ (htop ▸ List.mem_cons_self)
  refine ⟨n, input, pending, below, htop, ?_⟩
  have hperm := account_advance_perm htop hinputs
  simpa only [acts, htop, hunderway] using hperm

/-- No operation is on the stack and emitted, and none is there twice. -/
theorem Marked.nodup_nodes (h : Marked g w) :
    (w.stack.map Frame.node ++ w.emitted).Nodup := by
  apply List.Nodup.of_map Node.output
  rw [List.map_append, List.map_map, List.nodup_append]
  refine ⟨h.nodup_entered, h.nodup_finished, ?_⟩
  rintro x hentered y hfinished rfl
  have hunderway := (h.underway_iff x).2 hentered
  rw [(h.done_iff x).2 hfinished] at hunderway
  cases hunderway

/-- What has been done is a part of what there is to do. -/
theorem Marked.account_subperm (h : Marked g w) :
    w.account.Subperm (g.nodes.flatMap Node.acts) := by
  have hnodes : (w.stack.map Frame.node ++ w.emitted).Subperm g.nodes := by
    apply List.subperm_of_subset h.nodup_nodes
    intro n hn
    rcases List.mem_append.1 hn with hn | hn
    · obtain ⟨f, hf, rfl⟩ := List.mem_map.1 hn
      exact h.stack_mem f hf
    · exact h.emitted_mem n hn
  have hall : w.account.Sublist ((w.stack.map Frame.node ++ w.emitted).flatMap Node.acts) := by
    rw [List.flatMap_append, List.flatMap_map]
    exact (List.Sublist.flatMap_right _ fun f _ => f.acts_sublist).append_right _
  obtain ⟨nodes, hperm, hsub⟩ := hnodes
  exact hall.subperm.trans ((hperm.flatMap_right Node.acts).symm.subperm.trans
    (hsub.flatMap Node.acts).subperm)

/-! ## The account of runs and visits -/

/-- Whether the acts `done` are accounted for by an outcome: by the state of a walk at rest, or by a
state whose next round finds a cycle. -/
def Accounted (g : Graph) (policy : CyclePolicy) (done : List Act) : Except Error Walk → Prop
  | .ok w => Reached g policy w ∧ w.stack = [] ∧ done.Perm w.account
  | .error _ => ∃ w path, Reached g policy w ∧ w.step g policy = .cycle path ∧
      done.Perm (w.account ++ w.acts g)

theorem Accounted.of_perm {done done' : List Act} {outcome : Except Error Walk}
    (hperm : done'.Perm done) (h : Accounted g policy done outcome) :
    Accounted g policy done' outcome := by
  cases outcome with
  | ok w =>
      obtain ⟨hreached, hidle, hdone⟩ := h
      exact ⟨hreached, hidle, hperm.trans hdone⟩
  | error e =>
      obtain ⟨w, path, hreached, hstep, hdone⟩ := h
      exact ⟨w, path, hreached, hstep, hperm.trans hdone⟩

theorem Reached.accounted_run (h : Reached g policy w) :
    Accounted g policy (w.account ++ w.runActs g policy) (w.run g policy) := by
  -- The induction follows the moves of `run`: it goes on, or it ends where it is.
  induction w using run.induct g policy with
  | case1 w w' hstep ih =>
      rw [run, runActs, hstep]
      refine (ih (h.step hstep)).of_perm ?_
      rw [← List.append_assoc]
      exact (h.account_step hstep).append_right _
  | case2 w hstep =>
      rw [run, runActs, hstep]
      refine ⟨h, step_eq_idle_iff.1 hstep, ?_⟩
      rw [List.append_nil]
  | case3 w path hstep =>
      rw [run, runActs, hstep]
      exact ⟨w, path, h, hstep, List.Perm.refl _⟩

theorem Reached.accounted_visit (h : Reached g policy w) (hidle : w.stack = []) (x : Name) :
    Accounted g policy (w.account ++ visitActs g policy w x) (Walk.visit g policy w x) := by
  cases hmark : w.marks.get? x with
  | some mark =>
      simp only [Walk.visit, visitActs, hmark, List.append_nil]
      exact ⟨h, hidle, List.Perm.refl _⟩
  | none =>
      cases hproducer : g.producer? x with
      | none =>
          simp only [Walk.visit, visitActs, hmark, hproducer, List.append_nil]
          exact ⟨h, hidle, List.Perm.refl _⟩
      | some n =>
          simp only [Walk.visit, visitActs, hmark, hproducer]
          refine (h.enter_producer hidle hmark hproducer).accounted_run.of_perm ?_
          rw [List.append_cons]
          exact (account_enter_perm w n).append_right _

theorem Reached.accounted_visits {xs : List Name} :
    ∀ {w : Walk}, Reached g policy w → w.stack = [] →
      Accounted g policy (w.account ++ visitsActs g policy xs w)
        (xs.foldlM (Walk.visit g policy) w) := by
  induction xs with
  | nil =>
      intro w h hidle
      rw [visitsActs, List.append_nil]
      exact ⟨h, hidle, List.Perm.refl _⟩
  | cons x xs ih =>
      intro w h hidle
      have hvisit := h.accounted_visit hidle x
      rw [visitsActs, List.foldlM_cons, ← List.append_assoc]
      cases houtcome : Walk.visit g policy w x with
      | error e =>
          rw [houtcome] at hvisit
          rw [List.append_nil]
          exact hvisit
      | ok w' =>
          rw [houtcome] at hvisit
          obtain ⟨hreached, hidle', hdone⟩ := hvisit
          exact (ih hreached hidle').of_perm (hdone.append_right _)

/-- **Nothing is done twice, and nothing that does not belong to an operation of the graph.** -/
theorem Accounted.subperm {done : List Act} {outcome : Except Error Walk}
    (h : Accounted g policy done outcome) : done.Subperm (g.nodes.flatMap Node.acts) := by
  cases outcome with
  | ok w =>
      obtain ⟨hreached, -, hdone⟩ := h
      exact hdone.subperm.trans hreached.marked.account_subperm
  | error e =>
      obtain ⟨w, path, hreached, hstep, hdone⟩ := h
      obtain ⟨n, input, pending, below, htop, hacts⟩ := hreached.account_cycle hstep
      exact (hdone.trans hacts).subperm.trans (hreached.marked.advance htop).account_subperm

theorem Accounted.nodup {done : List Act} {outcome : Except Error Walk}
    (h : Accounted g policy done outcome) : done.Nodup := by
  obtain ⟨done', hperm, hsub⟩ := h.subperm
  exact hperm.nodup_iff.1 ((nodup_flatMap_acts g.nodup_outputs.of_map).sublist hsub)

theorem Accounted.rounds_le {done : List Act} {outcome : Except Error Walk}
    (h : Accounted g policy done outcome) :
    rounds done ≤ (g.nodes.map fun n => 1 + n.inputs.length).sum := by
  rw [← rounds_flatMap_acts]
  exact h.subperm.countP_le _

/-! ## The loop with a limit -/

/-- A round that is made examines an input or emits an operation. -/
theorem rounds_acts {r : Progress} (h : w.step g policy = r) (hr : r ≠ .idle) :
    rounds (w.acts g) = 1 := by
  rw [acts]
  split
  · rename_i hidle
    exact absurd (h.symm.trans (step_eq_idle_iff.2 hidle)) hr
  · rfl
  · split
    · rfl
    · cases g.producer? _ <;> rfl

/-- **The loop needs as many rounds as were written down**, and with these it comes to its result. -/
theorem runWithin_eq (limit : Nat) (w : Walk) :
    w.runWithin g policy limit =
      if rounds (w.runActs g policy) ≤ limit then some (w.run g policy) else none := by
  induction limit generalizing w with
  | zero =>
      rw [runWithin.eq_def, run, runActs]
      cases hstep : w.step g policy with
      | idle => rfl
      | onward w' =>
          have hround : rounds (w.acts g) = 1 := rounds_acts hstep (by simp)
          simp only [rounds_append, hround]
          rw [if_neg (by omega)]
      | cycle path =>
          have hround : rounds (w.acts g) = 1 := rounds_acts hstep (by simp)
          simp only [hround]
          rfl
  | succ limit ih =>
      rw [runWithin.eq_def, run, runActs]
      cases hstep : w.step g policy with
      | idle => rfl
      | onward w' =>
          have hround : rounds (w.acts g) = 1 := rounds_acts hstep (by simp)
          simp only [ih, rounds_append, hround, Nat.add_comm 1, Nat.add_le_add_iff_right]
      | cycle path =>
          have hround : rounds (w.acts g) = 1 := rounds_acts hstep (by simp)
          simp only [hround]
          rw [if_pos (by omega)]

end Walk

namespace Graph

variable {g : Graph} {policy : CyclePolicy}

/-! ## Sorting -/

theorem accounted_sortActs (g : Graph) (policy : CyclePolicy) :
    Walk.Accounted g policy (g.sortActs policy)
      ((g.starts policy).foldlM (Walk.visit g policy) Walk.start) :=
  Walk.Reached.start.accounted_visits rfl

/-- If sorting succeeds, all there is to do with the operations of the schedule has been done. -/
theorem rounds_of_sort_eq_ok {s : Schedule} (h : g.sort policy = .ok s) :
    rounds (g.sortActs policy) = (s.nodes.map fun n => 1 + n.inputs.length).sum := by
  obtain ⟨w, hvisits, rfl⟩ := sort_eq_ok_iff.1 h
  have haccounted := accounted_sortActs g policy
  rw [hvisits] at haccounted
  obtain ⟨-, hidle, hdone⟩ := haccounted
  rw [Walk.account, hidle, List.flatMap_nil, List.nil_append] at hdone
  calc rounds (g.sortActs policy)
      = rounds (w.emitted.flatMap Node.acts) := hdone.countP_eq _
    _ = (w.emitted.map fun n => 1 + n.inputs.length).sum := rounds_flatMap_acts _
    _ = (w.emitted.reverse.map fun n => 1 + n.inputs.length).sum := by
        rw [List.map_reverse, List.sum_reverse]

/-- **The loop ends on every graph, cyclic ones included.** Sorting enters no operation twice, examines
no position of an input list twice and emits no operation twice. If it succeeds, all its loops together
have gone round once for every operation of the schedule and once for each of its inputs; if it fails,
they have gone round at most so often for all operations of the graph. The loop of any visit, after any
visits that have not failed, ends after as many rounds as were written down for it, and not before, with
the outcome of the visit; this number has the same bound. -/
theorem iterations_of_sort (g : Graph) (policy : CyclePolicy) :
    (g.sortActs policy).Nodup ∧
      (∀ s, g.sort policy = .ok s →
        rounds (g.sortActs policy) = (s.nodes.map fun n => 1 + n.inputs.length).sum) ∧
      (∀ e, g.sort policy = .error e →
        rounds (g.sortActs policy) ≤ (g.nodes.map fun n => 1 + n.inputs.length).sum) ∧
      ∀ (xs : List Name) (w : Walk), xs.foldlM (Walk.visit g policy) Walk.start = .ok w →
        ∀ x n, g.producer? x = some n → w.marks.get? x = none →
          rounds (Walk.visitActs g policy w x) ≤
              (g.nodes.map fun n => 1 + n.inputs.length).sum ∧
            ∀ limit, (w.enter n).runWithin g policy limit =
              if rounds (Walk.visitActs g policy w x) ≤ limit then
                some (Walk.visit g policy w x)
              else none := by
  have haccounted := accounted_sortActs g policy
  refine ⟨haccounted.nodup, fun s hsort => rounds_of_sort_eq_ok hsort,
    fun _ _ => haccounted.rounds_le, ?_⟩
  intro xs w hvisits x n hproducer hnew
  obtain ⟨hreached, hidle, -, -⟩ := Walk.foldlM_visit_ok Walk.Reached.start rfl hvisits
  constructor
  · have hle := (hreached.accounted_visit hidle x).rounds_le
    rw [rounds_append] at hle
    omega
  · intro limit
    have hacts : rounds (Walk.visitActs g policy w x) =
        rounds ((w.enter n).runActs g policy) := by
      simp only [Walk.visitActs, hnew, hproducer, rounds_enter_cons]
    rw [hacts, Walk.visit_of_new hnew hproducer]
    exact Walk.runWithin_eq limit _

/-- The three operations that hang on `out` mention five inputs, of which `b` mentions itself and `a`;
the operation of `c` is not met when cycles are tolerated. Where they are rejected, the loop stops in
its third round. -/
example :
    let g : Graph := ⟨[⟨"out", ["a"]⟩, ⟨"a", ["b", "b"]⟩, ⟨"b", ["b", "a"]⟩, ⟨"c", ["c"]⟩],
      by decide, by decide⟩
    rounds (g.sortActs .tolerate) = 3 + 5 ∧ rounds (g.sortActs .reject) = 3 := by
  decide +kernel

end Graph

end SlotPlan
