import Mathlib.Data.List.Nodup
import SlotPlan.Json.Layout
import SlotPlan.Proofs.Json.Doc
import SlotPlan.Proofs.Outcome
import SlotPlan.Proofs.Roster

/-!
# Values are read back

`Decoder.Reads` says that a document can be written and that a decoder gets a given value out of it.
Then the decoder gets the value out of the text of the document (`Decoder.Reads.run`). What is read
back from the parts of a value is read back from the whole: for lists (`Decoder.Reads.list`), for
rosters (`Decoder.Reads.roster`) and for records whose fields are written in the order of their
layout (`Layout.Fills.reads`).
-/

set_option autoImplicit false

namespace SlotPlan.Json

/-- The document `d` can be written, and `decode` gets the value `a` out of it. -/
structure Decoder.Reads {α : Type} (decode : Decoder α) (d : Doc) (a : α) : Prop where
  /-- The document can be written. -/
  written : d.Written
  /-- The value is what the document decodes to. -/
  decoded : decode d = .ok a

namespace Decoder.Reads

variable {α β : Type} {decode : Decoder α} {d : Doc} {a : α}

/-- **A value is read back from each text of its document.** -/
theorem run_of_spelled (h : decode.Reads d a) {s : String} (hs : d.Spelled s) :
    decode.run s = .ok a := by
  rw [hs.run, h.decoded]

/-- A value is read back from the text that is written. -/
theorem run (h : decode.Reads d a) : decode.run d.render = .ok a :=
  h.run_of_spelled h.written.spelled_render

/-! ## Parts and wholes -/

theorem text (s : String) : Decoder.text.Reads (.text s) s :=
  ⟨.text s, rfl⟩

theorem nat {n : Nat} (h : IsWord n) : Decoder.nat.Reads (.nat n) n :=
  ⟨.nat h, rfl⟩

theorem map (f : α → β) (h : decode.Reads d a) : (decode.map f).Reads d (f a) where
  written := h.written
  decoded := by rw [Decoder.map, h.decoded, Except.map]

/-- A list is read back from an array if its elements are read back from the items. -/
theorem list {as : List α} {write : α → Doc} (h : ∀ a ∈ as, decode.Reads (write a) a) :
    (Decoder.list decode).Reads (.list (as.map write)) as where
  written := .list (List.forall_mem_map.2 fun a ha => (h a ha).written)
  decoded := by
    show (as.map write).mapM decode >>= _ = _
    rw [mapM_map_eq_ok fun a ha => (h a ha).decoded]
    rfl

/-- Bindings are read from an object with a member for each of them, and are made one after the
other. -/
theorem bindings {es : List (Name × α)} {write : α → Doc}
    (h : ∀ e ∈ es, decode.Reads (write e.2) e.2) :
    (Decoder.roster decode).Reads (.fields (es.map fun (name, a) => (name, write a)))
      (.ofList es) where
  written := .fields (List.forall_mem_map.2 fun e he => (h e he).written)
  decoded := by
    have hentry : ∀ e ∈ es, entry decode (some e.1, write e.2) = .ok e := fun e he => by
      simp only [entry, key, (h e he).decoded]
      rfl
    show ((es.map _).map _).mapM (entry decode) >>= _ = _
    rw [List.map_map]
    exact congrArg (· >>= _) (mapM_map_eq_ok hentry)

/-- A roster is read back from an object if its values are read back from those of the members. The
entries keep their order, since no name has two of them. -/
theorem roster {r : Roster α} {write : α → Doc}
    (h : ∀ e ∈ r.entries, decode.Reads (write e.2) e.2) :
    (Decoder.roster decode).Reads
      (.fields (r.entries.map fun (name, a) => (name, write a))) r := by
  have hread := bindings h
  rwa [r.ofList_entries] at hread

end Decoder.Reads

/-! ## Records -/

namespace Layout

variable {α : Type}

/-- The members are one for each field, in their order, and what is read from them takes a record
from `a` to `b`. -/
inductive Fills : List (Field α) → List (String × Doc) → α → α → Prop where
  /-- Without fields, the record stays as it is. -/
  | nil (a : α) : Fills [] [] a a
  /-- What is read from the first member is put into the record. -/
  | cons {β : Type} {name : String} {presence : Presence} {decode : Decoder β} {put : β → α → α}
      {fields : List (Field α)} {d : Doc} {members : List (String × Doc)} {b : β} {a c : α}
      (hfirst : decode.Reads d b) (hrest : Fills fields members (put b a) c) :
      Fills (.of name presence decode put :: fields) ((name, d) :: members) a c

theorem Fills.written {fields : List (Field α)} {members : List (String × Doc)} {a b : α}
    (h : Fills fields members a b) : (Doc.fields members).Written := by
  apply Doc.Written.fields
  induction h with
  | nil => exact fun m hm => absurd hm List.not_mem_nil
  | cons hfirst _ ih => exact List.forall_mem_cons.2 ⟨hfirst.written, ih⟩

/-- Among fields with different names, a field is found by its name. -/
theorem find?_name {fields : List (Field α)} (h : (fields.map Field.name).Nodup) {f : Field α}
    (hf : f ∈ fields) : fields.find? (·.name = f.name) = some f := by
  have hfound : (fields.find? (·.name = f.name)).isSome :=
    List.find?_isSome.2 ⟨f, hf, decide_eq_true rfl⟩
  obtain ⟨f', hf'⟩ := Option.isSome_iff_exists.1 hfound
  have hname : f'.name = f.name := by simpa using List.find?_some hf'
  rw [hf', List.inj_on_of_nodup_map h (List.mem_of_find?_eq_some hf') hf hname]

/-- What is read from a member with the name of a field is put into the record, and the rest is read
after it. -/
theorem readMembers_of_find? {fields : List (Field α)} {name : String} {f : Field α}
    (hfind : fields.find? (·.name = name) = some f) {seen : List String} (hnew : name ∉ seen)
    (d : Doc) (rest : List (Option String × Doc)) (a : α) :
    readMembers fields ((some name, d) :: rest) seen a =
      f.read d >>= fun put => readMembers fields rest (name :: seen) (put a) := by
  rw [readMembers]
  dsimp only [Decoder.key, bind, Except.bind]
  rw [hfind]
  exact if_neg hnew

/-- A member whose key is that of no field is passed over if it is a JSON value. -/
theorem readMembers_of_find?_eq_none {fields : List (Field α)} {name : String}
    (hfind : fields.find? (·.name = name) = none) {d : Doc} (hd : d.isComplete = true)
    (rest : List (Option String × Doc)) (seen : List String) (a : α) :
    readMembers fields ((some name, d) :: rest) seen a = readMembers fields rest seen a := by
  rw [readMembers]
  dsimp only [Decoder.key, Decoder.skip, bind, Except.bind]
  rw [hfind, if_pos hd]

/-- Members that fill some of the fields are read, if none of these fields has been read before. -/
theorem Fills.readMembers {all : List (Field α)} (hall : (all.map Field.name).Nodup)
    {fields : List (Field α)} {members : List (String × Doc)} {a b : α}
    (h : Fills fields members a b) (hfields : ∀ f ∈ fields, f ∈ all) :
    ∀ seen : List String, ((fields.map Field.name).reverse ++ seen).Nodup →
      readMembers all (members.map fun (key, value) => (some key, value)) seen a =
        .ok (b, (fields.map Field.name).reverse ++ seen) := by
  induction h with
  | nil a =>
      intro seen _
      rfl
  | @cons β name presence decode put fields d members b a c hfirst hrest ih =>
      intro seen hseen
      have hnames : ((Field.of name presence decode put :: fields).map Field.name).reverse ++ seen =
          (fields.map Field.name).reverse ++ name :: seen := by
        rw [List.map_cons, List.reverse_cons, List.append_assoc, List.singleton_append]
        rfl
      rw [hnames] at hseen ⊢
      have hnew : name ∉ seen := (List.nodup_cons.1 (List.nodup_append.1 hseen).2.1).1
      have hfind : all.find? (·.name = name) = some (.of name presence decode put) :=
        find?_name hall (hfields _ List.mem_cons_self)
      have hread : (Field.of name presence decode put).read d = .ok (put b) :=
        (hfirst.map put).decoded
      rw [List.map_cons, readMembers_of_find? hfind hnew, hread]
      exact ih (fun f hf => hfields f (List.mem_cons_of_mem _ hf)) _ hseen

/-- **A record is read back from an object** with its fields in the order of the layout. -/
theorem Fills.reads {l : Layout α} (hnodup : (l.fields.map Field.name).Nodup)
    {members : List (String × Doc)} {a : α} (h : Fills l.fields members l.blank a) :
    l.decoder.Reads (.fields members) a where
  written := h.written
  decoded := by
    have hnames : ((l.fields.map Field.name).reverse ++ []).Nodup := by
      rw [List.append_nil]
      exact List.nodup_reverse.2 hnodup
    have hread := h.readMembers hnodup (fun f hf => hf) [] hnames
    have hmissing : missing? l.fields ((l.fields.map Field.name).reverse ++ []) = none := by
      rw [missing?, Option.map_eq_none_iff, List.find?_eq_none]
      intro f hf
      simp only [List.append_nil, List.mem_reverse, List.mem_map_of_mem hf, not_true_eq_false,
        and_false, decide_false, Bool.false_eq_true, not_false_eq_true]
    show l.readObject _ true = .ok a
    rw [readObject, hread]
    dsimp only [Decoder.finish, bind, Except.bind, ite_true]
    rw [hmissing]
    rfl

/-- A record is not read if the member in front has the name of a field and is not read. -/
theorem decoder_fields_of_error {l : Layout α} {name : String} {f : Field α}
    (hfind : l.fields.find? (·.name = name) = some f) {d : Doc} {m : Mismatch}
    (hread : f.read d = .error m) (rest : List (String × Doc)) :
    l.decoder (.fields ((name, d) :: rest)) = .error m := by
  show l.readObject _ true = _
  rw [readObject, List.map_cons, readMembers_of_find? hfind List.not_mem_nil, hread]
  rfl

end Layout

end SlotPlan.Json
