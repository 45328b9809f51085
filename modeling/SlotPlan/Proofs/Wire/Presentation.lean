import SlotPlan.Proofs.Json.Presentation
import SlotPlan.Proofs.Wire.RoundTrip
import SlotPlan.Wire.Config

/-!
# Presentations of operations, records, allocations, plans and configurations

How a value is presented does not matter to its reader: the order of the fields, blanks and escapes in
the text, members that are no fields, and fields that are left out where they have their default
values. The same holds of the records in an allocation and of the parts of a plan.
-/

set_option autoImplicit false

namespace SlotPlan

open Json

/-! ## How fields are shown -/

/-- How the fields of an operation are shown. -/
def Node.form : List (FieldForm Node) := [
  { key := "output", value := output, Shows := fun x d => d = .text x, omitted := none },
  { key := "inputs", value := inputs, Shows := fun xs d => d = .list (xs.map .text),
    omitted := some [] }]

/-- How the fields of a record are shown. -/
def Record.form : List (FieldForm Record) := [
  { key := "output", value := output, Shows := fun x d => d = .text x, omitted := none },
  { key := "binding", value := slot, Shows := fun k d => d = .nat k, omitted := none },
  { key := "creationIndex", value := created, Shows := fun k d => d = .nat k, omitted := none },
  { key := "lifetime", value := lifetime, Shows := fun t d => d = t.encode,
    omitted := some .unbounded }]

/-- How the fields of an allocation are shown. Its records may be presented in any way. -/
def Allocation.form : List (FieldForm Allocation) := [
  { key := "allocations", value := records, omitted := none,
    Shows := fun records d => ∃ members, d = .fields members ∧
      List.Forall₂ (fun m e => m.1 = e.1 ∧ Presents Record.form e.2 m.2) members records.entries },
  { key := "lifetimes", value := liveness, Shows := fun l d => d = l.encode, omitted := none },
  { key := "minBufferCount", value := minSlots, Shows := fun k d => d = .nat k, omitted := none },
  { key := "maxBufferCount", value := maxSlots, Shows := fun k d => d = .nat k, omitted := none }]

/-- How the fields of a plan are shown. Its operations and its allocation may be presented in any
way. -/
def Plan.form : List (FieldForm Plan) := [
  { key := "order", value := schedule, omitted := none,
    Shows := fun s d => ∃ items, d = .list items ∧
      List.Forall₂ (fun item n => Presents Node.form n item) items s.nodes },
  { key := "allocation", value := allocation, Shows := Presents Allocation.form, omitted := none }]

/-- How the fields of a configuration are shown. -/
def Config.form : List (FieldForm Config) := [
  { key := "cycle_policy", value := cycles, Shows := fun p d => d = p.encode,
    omitted := some .reject },
  { key := "order", value := order, Shows := fun o d => d = o.encode, omitted := some .topological }]

/-! ## The readers follow -/

theorem Node.follows (n : Node) : layout.Follows form n where
  readBy := by
    have hinputs : (Decoder.list .text).Reads (.list (n.inputs.map .text)) n.inputs :=
      .list fun x _ => .text x
    refine .cons (.of_reads (.text n.output) (fun _ _ => rfl) nofun)
      (.cons (.of_reads hinputs (fun _ _ => rfl) ?inputs) .nil)
    rintro _ ⟨⟩
    exact ⟨by decide, rfl⟩
  nodup := by decide
  keeps := by simp [form, layout, Field.of_name, Field.keeps_of]
  ext {r} h := by
    obtain ⟨output, inputs⟩ := r
    simp only [form, List.forall_mem_cons] at h
    obtain ⟨rfl, rfl, -⟩ := h
    rfl

theorem Record.follows {r : Record} (h : r.FitsWord) : layout.Follows form r where
  readBy := by
    obtain ⟨hslot, hcreated, hlifetime⟩ := h
    refine .cons (.of_reads (.text r.output) (fun _ _ => rfl) nofun)
      (.cons (.of_reads (.nat hslot) (fun _ _ => rfl) nofun)
      (.cons (.of_reads (.nat hcreated) (fun _ _ => rfl) nofun)
      (.cons (.of_reads (Lifetime.reads_encode hlifetime) (fun _ _ => rfl) ?lifetime) .nil)))
    rintro _ ⟨⟩
    exact ⟨by decide, rfl⟩
  nodup := by decide
  keeps := by simp [form, layout, Field.of_name, Field.keeps_of]
  ext {r'} h := by
    obtain ⟨output, slot, created, lifetime⟩ := r'
    simp only [form, List.forall_mem_cons] at h
    obtain ⟨rfl, rfl, rfl, rfl, -⟩ := h
    rfl

theorem Allocation.follows {a : Allocation} (h : a.FitsWord) : layout.Follows form a where
  readBy := by
    obtain ⟨hrecords, hliveness, hmin, hmax⟩ := h
    refine .cons (.of ?records (fun _ _ => rfl) nofun)
      (.cons (.of_reads (Liveness.reads_encode hliveness) (fun _ _ => rfl) nofun)
      (.cons (.of_reads (.nat hmin) (fun _ _ => rfl) nofun)
      (.cons (.of_reads (.nat hmax) (fun _ _ => rfl) nofun) .nil)))
    rintro _ ⟨members, rfl, hmembers⟩ hcomplete
    exact Decoder.roster_eq_of_forall₂
      (fun e he d hd hcomplete => (Record.follows (hrecords e he)).decoder_eq hd hcomplete)
      hmembers hcomplete
  nodup := by decide
  keeps := by simp [form, layout, Field.of_name, Field.keeps_of]
  ext {a'} h := by
    obtain ⟨records, liveness, minSlots, maxSlots⟩ := a'
    simp only [form, List.forall_mem_cons] at h
    obtain ⟨rfl, rfl, rfl, rfl, -⟩ := h
    rfl

theorem Plan.follows {p : Plan} (h : p.allocation.FitsWord) (hvalid : p.schedule.validate = .ok ()) :
    layout.Follows form p where
  readBy := by
    refine .cons (.of ?schedule (fun _ _ => rfl) nofun)
      (.cons (.of ?allocation (fun _ _ => rfl) nofun) .nil)
    case schedule =>
      rintro _ ⟨items, rfl, hitems⟩ hcomplete
      have hnodes : Decoder.list Node.decoder (.list items) = .ok p.schedule.nodes :=
        Decoder.list_eq_of_forall₂ (fun n _ d hd hd' => n.follows.decoder_eq hd hd') hitems hcomplete
      show Decoder.list Node.decoder _ >>= _ = _
      rw [hnodes]
      show (Schedule.validated p.schedule.nodes).mapError Mismatch.rejected = _
      rw [Schedule.validated_eq_ok_iff.2 ⟨rfl, hvalid⟩, Except.mapError]
    case allocation =>
      exact fun d hd hcomplete => (Allocation.follows h).decoder_eq hd hcomplete
  nodup := by decide
  keeps := by simp [form, layout, Field.of_name, Field.keeps_of]
  ext {p'} h := by
    obtain ⟨schedule, allocation⟩ := p'
    simp only [form, List.forall_mem_cons] at h
    obtain ⟨rfl, rfl, -⟩ := h
    rfl

theorem Config.follows (c : Config) : layout.Follows form c where
  readBy := by
    have hcycles : CyclePolicy.decoder.Reads c.cycles.encode c.cycles :=
      ⟨.text _, by cases c.cycles <;> rfl⟩
    have horder : OrderSource.decoder.Reads c.order.encode c.order :=
      ⟨.text _, by cases c.order <;> rfl⟩
    refine .cons (.of_reads hcycles (fun _ _ => rfl) ?cycles)
      (.cons (.of_reads horder (fun _ _ => rfl) ?order) .nil)
    all_goals
      rintro _ ⟨⟩
      exact ⟨by decide, rfl⟩
  nodup := by decide
  keeps := by simp [form, layout, Field.of_name, Field.keeps_of]
  ext {c'} h := by
    obtain ⟨cycles, order⟩ := c'
    simp only [form, List.forall_mem_cons] at h
    obtain ⟨rfl, rfl, -⟩ := h
    rfl

/-! ## Texts -/

/-- **How a value is presented does not matter to its reader.** -/
theorem run_of_presents :
    (∀ (n : Node) (d : Doc) (s : String), Presents Node.form n d → d.Spelled s →
      Node.decoder.run s = .ok n) ∧
    (∀ r : Record, r.FitsWord → ∀ (d : Doc) (s : String), Presents Record.form r d → d.Spelled s →
      Record.decoder.run s = .ok r) ∧
    (∀ a : Allocation, a.FitsWord → ∀ (d : Doc) (s : String), Presents Allocation.form a d →
      d.Spelled s → Allocation.decoder.run s = .ok a) ∧
    (∀ p : Plan, p.allocation.FitsWord → p.schedule.validate = .ok () → ∀ (d : Doc) (s : String),
      Presents Plan.form p d → d.Spelled s → Plan.decoder.run s = .ok p) ∧
    ∀ (c : Config) (d : Doc) (s : String), Presents Config.form c d → d.Spelled s →
      Config.decoder.run s = .ok c ∧ Config.ofText s = .ok c := by
  refine ⟨?node, ?record, ?allocation, ?plan, ?config⟩
  case node => exact fun n d s hd hs => n.follows.run_eq hd hs
  case record => exact fun r h d s hd hs => (Record.follows h).run_eq hd hs
  case allocation => exact fun a h d s hd hs => (Allocation.follows h).run_eq hd hs
  case plan => exact fun p h hvalid d s hd hs => (Plan.follows h hvalid).run_eq hd hs
  case config =>
    intro c d s hd hs
    have hrun : Config.decoder.run s = .ok c := c.follows.run_eq hd hs
    refine ⟨hrun, ?_⟩
    rw [Config.ofText, hrun, Except.mapError]

/-- An allocation whose fields are presented in reverse order, with another member among them. One
record is an array, and the other one an object without its lifetime. -/
def Plan.scatteredAllocation : Doc :=
  .fields [("maxBufferCount", .nat 3), ("minBufferCount", .nat 2), ("", .text ""),
    ("lifetimes", .fields [("a", .nat 1)]),
    ("allocations", .fields [("a", .list [.text "a", .nat 0, .nat 0, .nat 1]),
      ("b", .fields [("creationIndex", .nat 1), ("binding", .nat 1), ("output", .text "b")])])]

/-- A plan whose fields are presented in reverse order, behind another member. One operation is an
object without its inputs, and the other one an array. -/
def Plan.scattered : Doc :=
  .fields [("note", .list [.null, .fields [("order", .null)]]), ("allocation", scatteredAllocation),
    ("order", .list [.fields [("output", .text "a")], .list [.text "b", .list [.text "a"]]])]

/-- The plan whose parts are presented in different ways is read, with blanks before each token. -/
theorem run_of_presents_of_scattered :
    let p : Plan := {
      schedule := ⟨[{ output := "a" }, { output := "b", inputs := ["a"] }]⟩
      allocation := {
        records := .ofList [("a", ⟨"a", 0, 0, .bounded 1⟩), ("b", ⟨"b", 1, 1, .unbounded⟩)]
        liveness := ⟨.ofList [("a", 1)]⟩
        minSlots := 2
        maxSlots := 3 } }
    let text := String.ofList (Plan.scattered.tokens.flatMap fun t => ['\n', ' '] ++ t.spelling)
    p.allocation.FitsWord ∧ p.schedule.validate = .ok () ∧ Presents Plan.form p Plan.scattered ∧
      Plan.scattered.Spelled text ∧ Plan.decoder.run text = .ok p := by
  intro p text
  have hword : p.allocation.FitsWord := by decide
  have hvalid : p.schedule.validate = .ok () := by decide
  have hwritten : Plan.scattered.Written := by
    unfold Plan.scattered Plan.scatteredAllocation
    repeat' first
      | exact .text _
      | exact .null
      | exact .nat (by decide)
      | refine List.forall_mem_cons.2 ⟨?_, ?_⟩
      | exact List.forall_mem_nil _
      | refine .list ?_
      | refine .fields ?_
  have hnodes : List.Forall₂ (fun item n => Presents Node.form n item)
      [.fields [("output", .text "a")], .list [.text "b", .list [.text "a"]]] p.schedule.nodes := by
    refine .cons (.object ⟨?_, by decide, ?_⟩) (.cons (.array ?_) .nil) <;> simp [Node.form]
  have hrecords : List.Forall₂ (fun m e => m.1 = e.1 ∧ Presents Record.form e.2 m.2)
      [("a", .list [.text "a", .nat 0, .nat 0, .nat 1]),
        ("b", .fields [("creationIndex", .nat 1), ("binding", .nat 1), ("output", .text "b")])]
      p.allocation.records.entries := by
    refine .cons ⟨rfl, .array ?_⟩ (.cons ⟨rfl, .object ⟨?_, by decide, ?_⟩⟩ .nil) <;>
      simp [Record.form, Lifetime.encode]
  have hallocation : Presents Allocation.form p.allocation Plan.scatteredAllocation := by
    refine .object ⟨?_, by decide, by simp [Allocation.form]⟩
    simpa [Allocation.form] using ⟨⟨_, rfl, hrecords⟩, rfl, rfl, rfl⟩
  have hpresents : Presents Plan.form p Plan.scattered := by
    refine .object ⟨?_, by decide, by simp [Plan.form]⟩
    simpa [Plan.form] using ⟨⟨_, rfl, hnodes⟩, hallocation⟩
  have hblanks : ∀ c ∈ ['\n', ' '], Token.isBlank c = true := by simp [Token.isBlank]
  have hspelled : Plan.scattered.Spelled text :=
    Doc.spelled_ofList hwritten.isComplete hwritten.spelled_of_mem_tokens hblanks
  exact ⟨hword, hvalid, hpresents, hspelled,
    run_of_presents.2.2.2.1 p hword hvalid _ _ hpresents hspelled⟩

/-- The key of a member that is passed over has to stand for a string as well. A surrogate without its
partner stands for none, so an operation with such a member is refused. -/
theorem run_of_unpaired_key :
    let n : Node := { output := "a" }
    let d : Doc := .object [(some "output", .text "a"), (none, .nat 1)] true
    let text := "\x7b\"output\":\"a\",\"\\ud800\":1\x7d"
    MembersPresent Node.form n [("output", .text "a")] ∧ (∀ f ∈ Node.form, none ≠ some f.key) ∧
      d.Spelled text ∧ Node.decoder.run text = .error .malformed := by
  intro n d text
  have hpresent : MembersPresent Node.form n [("output", .text "a")] := by
    refine ⟨?_, by decide, ?_⟩ <;> simp [Node.form, n]
  have hunit : Quoted.Spelled [.unit 0xD800] ['\\', 'u', 'd', '8', '0', '0'] := .unit rfl .nil
  have hkey : (Token.scalar (.text none)).Spelled (Token.scalar (.text none)).spelling :=
    .text hunit
  have htokens : ∀ t ∈ d.tokens, t.Spelled t.spelling := by
    have htext : ∀ x, (Token.scalar (.text (some x))).Spelled _ := fun x =>
      (Scalar.Written.text x).spelled
    have hone : (Token.scalar (.number (.whole 1))).Spelled _ :=
      (Scalar.Written.whole (by decide)).spelled
    show ∀ t ∈ [Token.openObject, .scalar (.text (some "output")), .colon,
      .scalar (.text (some "a")), .comma, .scalar (.text none), .colon,
      .scalar (.number (.whole 1)), .closeObject], t.Spelled t.spelling
    simp only [List.forall_mem_cons]
    exact ⟨.separator (by decide), htext _, .separator (by decide), htext _, .separator (by decide),
      hkey, .separator (by decide), hone, .separator (by decide), nofun⟩
  have hrender : d.render = text := by decide +kernel
  have hblanks : ∀ c ∈ ([] : List Char), Token.isBlank c = true := nofun
  have hspelled : d.Spelled text := hrender ▸ Doc.spelled_ofList rfl htokens hblanks
  refine ⟨hpresent, fun f _ => nofun, hspelled, ?_⟩
  rw [hspelled.run]
  rfl

end SlotPlan
