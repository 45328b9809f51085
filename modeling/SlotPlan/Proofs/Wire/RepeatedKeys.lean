import SlotPlan.Proofs.Wire.RoundTrip

/-!
# Tables that are written with repeated keys

An object may name a key more than once. Read as a table, such an object keeps the place of the first
mention of a key and the value of the last one (`Roster.Gathers`), whatever stands between them. The
table that has been read names each key once, and is read back as it is.
-/

set_option autoImplicit false

namespace SlotPlan

open Json

/-! ## Objects that are written from bindings -/

/-- The object with a position for each name of a list, which may repeat names. -/
def Liveness.encodeBindings (es : List (Name × Nat)) : Doc :=
  .fields (es.map fun (value, last) => (value, .nat last))

/-- The object of an allocation whose records are written from a list, which may repeat names. -/
def Allocation.encodeBindings (es : List (Name × Record)) (l : Liveness) (min max : Nat) : Doc :=
  .fields [("allocations", .fields (es.map fun (value, r) => (value, r.encode))),
    ("lifetimes", l.encode), ("minBufferCount", .nat min), ("maxBufferCount", .nat max)]

/-! ## Reading them -/

namespace Liveness

variable {es : List (Name × Nat)}

theorem reads_encodeBindings (h : ∀ e ∈ es, IsWord e.2) :
    decoder.Reads (encodeBindings es) ⟨.ofList es⟩ := by
  have hbindings : (Decoder.roster .nat).Reads (encodeBindings es) (.ofList es) :=
    .bindings fun e he => .nat (h e he)
  exact hbindings.map Liveness.mk

theorem fitsWord_ofList (h : ∀ e ∈ es, IsWord e.2) : FitsWord ⟨.ofList es⟩ :=
  fun e he => h e (Roster.mem_of_mem_entries_ofList he)

end Liveness

namespace Allocation

variable {es : List (Name × Record)} {l : Liveness} {min max : Nat}

theorem reads_encodeBindings (h : ∀ e ∈ es, e.2.FitsWord) (hl : l.FitsWord) (hmin : IsWord min)
    (hmax : IsWord max) :
    decoder.Reads (encodeBindings es l min max) ⟨.ofList es, l, min, max⟩ := by
  have hbindings : (Decoder.roster Record.decoder).Reads
      (.fields (es.map fun e => (e.1, e.2.encode))) (.ofList es) :=
    .bindings fun e he => Record.reads_encode (h e he)
  exact Layout.Fills.reads (by decide) (.cons hbindings (.cons (Liveness.reads_encode hl)
    (.cons (.nat hmin) (.cons (.nat hmax) (.nil _)))))

theorem fitsWord_ofList (h : ∀ e ∈ es, e.2.FitsWord) (hl : l.FitsWord) (hmin : IsWord min)
    (hmax : IsWord max) : FitsWord ⟨.ofList es, l, min, max⟩ :=
  ⟨fun e he => h e (Roster.mem_of_mem_entries_ofList he), hl, hmin, hmax⟩

end Allocation

/-- **A repeated key keeps its first place and takes its last value**, in a table of last reads and in
the records of an allocation, however the object is written, and the table that has been read is read
back from its own text. -/
theorem run_encodeBindings :
    (∀ es : List (Name × Nat), (∀ e ∈ es, IsWord e.2) →
      ∃ l, Liveness.decoder.run (Liveness.encodeBindings es).render = .ok l ∧
        (∀ s, (Liveness.encodeBindings es).Spelled s → Liveness.decoder.run s = .ok l) ∧
        l.lastReads.Gathers es ∧ Liveness.decoder.run l.encode.render = .ok l) ∧
    ∀ (es : List (Name × Record)) (l : Liveness) (min max : Nat), (∀ e ∈ es, e.2.FitsWord) →
      l.FitsWord → IsWord min → IsWord max →
        ∃ a, Allocation.decoder.run (Allocation.encodeBindings es l min max).render = .ok a ∧
          (∀ s, (Allocation.encodeBindings es l min max).Spelled s →
            Allocation.decoder.run s = .ok a) ∧
          a.records.Gathers es ∧ a.liveness = l ∧ a.minSlots = min ∧ a.maxSlots = max ∧
          Allocation.decoder.run a.encode.render = .ok a := by
  refine ⟨?liveness, ?allocation⟩
  case liveness =>
    intro es h
    have hread := Liveness.reads_encodeBindings h
    have hback := Liveness.reads_encode (Liveness.fitsWord_ofList h)
    exact ⟨_, hread.run, fun s hs => hread.run_of_spelled hs, Roster.gathers_ofList es, hback.run⟩
  case allocation =>
    intro es l min max h hl hmin hmax
    have hread := Allocation.reads_encodeBindings h hl hmin hmax
    have hback := Allocation.reads_encode (Allocation.fitsWord_ofList h hl hmin hmax)
    exact ⟨_, hread.run, fun s hs => hread.run_of_spelled hs, Roster.gathers_ofList es, rfl, rfl,
      rfl, hback.run⟩

end SlotPlan
