import SlotPlan.Proofs.Json.Reads
import SlotPlan.Proofs.Schedule.Validity
import SlotPlan.Wire.Allocation

/-!
# What is written is read back

Operations, lifetimes, tables of last reads, records and allocations are read back from their text,
with the entries of their tables in the same order, if a word can hold their numbers
(`FitsWord`). Nothing else is asked of an allocation: its records need not be those of the values
that they are listed under. A schedule is read back if it is valid, since the reader validates it.
-/

set_option autoImplicit false

namespace SlotPlan

open Json

/-! ## Numbers that a word can hold -/

/-- Whether a word can hold the end of a lifetime. -/
def Lifetime.FitsWord : Lifetime → Prop
  | bounded last => IsWord last
  | unbounded => True

instance : DecidablePred Lifetime.FitsWord
  | .bounded last => inferInstanceAs (Decidable (IsWord last))
  | .unbounded => isTrue trivial

/-- Whether words can hold the positions in a table of last reads. -/
def Liveness.FitsWord (l : Liveness) : Prop :=
  ∀ e ∈ l.lastReads.entries, IsWord e.2

instance : DecidablePred Liveness.FitsWord := fun l =>
  inferInstanceAs (Decidable (∀ e ∈ l.lastReads.entries, IsWord e.2))

/-- Whether words can hold the numbers in a record. -/
def Record.FitsWord (r : Record) : Prop :=
  IsWord r.slot ∧ IsWord r.created ∧ r.lifetime.FitsWord

instance : DecidablePred Record.FitsWord := fun r =>
  inferInstanceAs (Decidable (IsWord r.slot ∧ IsWord r.created ∧ r.lifetime.FitsWord))

/-- Whether words can hold the numbers in an allocation. -/
def Allocation.FitsWord (a : Allocation) : Prop :=
  (∀ e ∈ a.records.entries, e.2.FitsWord) ∧ a.liveness.FitsWord ∧ IsWord a.minSlots ∧
    IsWord a.maxSlots

instance : DecidablePred Allocation.FitsWord := fun a =>
  inferInstanceAs (Decidable ((∀ e ∈ a.records.entries, e.2.FitsWord) ∧ a.liveness.FitsWord ∧
    IsWord a.minSlots ∧ IsWord a.maxSlots))

/-! ## One kind of value after the other -/

theorem Node.reads_encode (n : Node) : decoder.Reads n.encode n := by
  have hinputs : (Decoder.list .text).Reads (.list (n.inputs.map .text)) n.inputs :=
    .list fun x _ => .text x
  exact Layout.Fills.reads (by decide) (.cons (.text n.output) (.cons hinputs (.nil n)))

theorem Node.reads_list (ns : List Node) :
    (Decoder.list decoder).Reads (.list (ns.map encode)) ns :=
  .list fun n _ => n.reads_encode

theorem Lifetime.reads_encode {t : Lifetime} (h : t.FitsWord) : decoder.Reads t.encode t := by
  cases t with
  | bounded last => exact ⟨.nat h, rfl⟩
  | unbounded => exact ⟨.null, rfl⟩

theorem Liveness.reads_encode {l : Liveness} (h : l.FitsWord) : decoder.Reads l.encode l := by
  have hlastReads : (Decoder.roster .nat).Reads l.encode l.lastReads :=
    .roster fun e he => .nat (h e he)
  exact hlastReads.map Liveness.mk

theorem Record.reads_encode {r : Record} (h : r.FitsWord) : decoder.Reads r.encode r := by
  obtain ⟨hslot, hcreated, hlifetime⟩ := h
  exact Layout.Fills.reads (by decide) (.cons (.text r.output) (.cons (.nat hslot)
    (.cons (.nat hcreated) (.cons (Lifetime.reads_encode hlifetime) (.nil r)))))

theorem Allocation.reads_encode {a : Allocation} (h : a.FitsWord) : decoder.Reads a.encode a := by
  obtain ⟨hrecords, hliveness, hmin, hmax⟩ := h
  have hroster : (Decoder.roster Record.decoder).Reads
      (.fields (a.records.entries.map fun e => (e.1, e.2.encode))) a.records :=
    .roster fun e he => Record.reads_encode (hrecords e he)
  exact Layout.Fills.reads (by decide) (.cons hroster (.cons (Liveness.reads_encode hliveness)
    (.cons (.nat hmin) (.cons (.nat hmax) (.nil a)))))

/-- A schedule is read as it was written, and then validated. -/
theorem Schedule.decoder_encode (s : Schedule) :
    decoder s.encode = (validated s.nodes).mapError .rejected := by
  show Decoder.list Node.decoder (.list (s.nodes.map Node.encode)) >>= _ = _
  rw [(Node.reads_list s.nodes).decoded]
  rfl

theorem Schedule.written_encode (s : Schedule) : s.encode.Written :=
  (Node.reads_list s.nodes).written

theorem Schedule.reads_encode {s : Schedule} (h : s.validate = .ok ()) :
    decoder.Reads s.encode s where
  written := s.written_encode
  decoded := by
    rw [decoder_encode, validated_eq_ok_iff.2 ⟨rfl, h⟩, Except.mapError]

/-! ## All of them -/

/-- **What is written is read back.** -/
theorem run_render_encode :
    (∀ x : Name, Decoder.text.run (Doc.text x).render = .ok x) ∧
    (∀ n : Node, Node.decoder.run n.encode.render = .ok n) ∧
    (∀ ns : List Node,
      (Decoder.list Node.decoder).run (Doc.list (ns.map Node.encode)).render = .ok ns) ∧
    (∀ k : Slot, IsWord k → Decoder.nat.run (Doc.nat k).render = .ok k) ∧
    (∀ t : Lifetime, t.FitsWord → Lifetime.decoder.run t.encode.render = .ok t) ∧
    (∀ l : Liveness, l.FitsWord → Liveness.decoder.run l.encode.render = .ok l) ∧
    (∀ r : Record, r.FitsWord → Record.decoder.run r.encode.render = .ok r) ∧
    (∀ a : Allocation, a.FitsWord → Allocation.decoder.run a.encode.render = .ok a) ∧
    ∀ s : Schedule, s.validate = .ok () → Schedule.decoder.run s.encode.render = .ok s := by
  refine ⟨?name, ?node, ?nodes, ?slot, ?lifetime, ?liveness, ?record, ?allocation, ?schedule⟩
  case name => exact fun x => (Decoder.Reads.text x).run
  case node => exact fun n => n.reads_encode.run
  case nodes => exact fun ns => (Node.reads_list ns).run
  case slot => exact fun k hk => (Decoder.Reads.nat hk).run
  case lifetime => exact fun t ht => (Lifetime.reads_encode ht).run
  case liveness => exact fun l hl => (Liveness.reads_encode hl).run
  case record => exact fun r hr => (Record.reads_encode hr).run
  case allocation => exact fun a ha => (Allocation.reads_encode ha).run
  case schedule => exact fun s hs => (Schedule.reads_encode hs).run

/-- An allocation that was made by hand: each of its two records is listed under the name of the
other one, the names ask for escapes, and the numbers are as great as they can be. -/
def Allocation.handMade : Allocation where
  records := .ofList [
    ("", ⟨"\"\\\u0000\n😀", UInt64.size - 1, 0, .unbounded⟩),
    ("\"\\\u0000\n😀", ⟨"", 0, UInt64.size - 1, .bounded 7⟩)]
  liveness := ⟨.ofList [("\u001f", UInt64.size - 1), ("", 7)]⟩
  minSlots := UInt64.size - 1
  maxSlots := 0

/-- An allocation that was made by hand is read back, and a schedule with odd names. -/
theorem run_render_encode_of_handMade :
    let a := Allocation.handMade
    let s : Schedule := ⟨[{ output := "" }, { output := "\"😀\\", inputs := ["", ""] }]⟩
    IsWord (UInt64.size - 1) ∧ a.FitsWord ∧ s.validate = .ok () ∧
      Decoder.nat.run (Doc.nat (UInt64.size - 1)).render = .ok (UInt64.size - 1) ∧
      Lifetime.decoder.run (Lifetime.bounded (UInt64.size - 1)).encode.render =
        .ok (.bounded (UInt64.size - 1)) ∧
      Liveness.decoder.run a.liveness.encode.render = .ok a.liveness ∧
      (∀ r ∈ a.records.values, Record.decoder.run r.encode.render = .ok r) ∧
      Allocation.decoder.run a.encode.render = .ok a ∧
      Schedule.decoder.run s.encode.render = .ok s := by
  intro a s
  have hword : IsWord (UInt64.size - 1) := by decide
  have ha : a.FitsWord := by decide
  have hs : s.validate = .ok () := by decide
  obtain ⟨-, -, -, hslot, hlifetime, hliveness, hrecord, hallocation, hschedule⟩ :=
    run_render_encode
  refine ⟨hword, ha, hs, hslot _ hword, hlifetime _ hword, hliveness _ ha.2.1, ?_,
    hallocation a ha, hschedule s hs⟩
  intro r hr
  obtain ⟨e, he, rfl⟩ := List.mem_map.1 hr
  exact hrecord e.2 (ha.1 e he)

end SlotPlan
