import SlotPlan.Json.Layout
import SlotPlan.Proofs.Outcome

/-!
# What reading a record keeps

A record is read field by field, starting from the blank record of its layout. So what holds of the
blank record and is kept by every field that is read holds of every record that a text decodes to
(`Layout.decoder_keeps`), however the text presents it.
-/

set_option autoImplicit false

namespace SlotPlan.Json

/-- What a text decodes to is what the document at its front decodes to. -/
theorem Decoder.exists_doc_of_run {α : Type} {decode : Decoder α} {s : String} {a : α}
    (h : Decoder.run decode s = .ok a) : ∃ d, decode d = .ok a := by
  rw [Decoder.run] at h
  obtain ⟨a', hdecode, hend⟩ := bind_eq_ok_iff.1 h
  split at hend
  · cases hend
    exact ⟨_, hdecode⟩
  · cases hend

/-- A text decodes if the document at its front does and nothing stands behind it. -/
theorem Decoder.run_eq_ok_iff {α : Type} {decode : Decoder α} {s : String} {a : α} :
    Decoder.run decode s = .ok a ↔
      decode (Doc.ofText s).1 = .ok a ∧ (Doc.ofText s).2.isEmpty = true := by
  rw [Decoder.run, bind_eq_ok_iff]
  constructor
  · rintro ⟨a', hdecode, hend⟩
    split at hend
    · cases hend
      exact ⟨hdecode, ‹_›⟩
    · cases hend
  · rintro ⟨hdecode, hend⟩
    exact ⟨a, hdecode, if_pos hend⟩

/-- What a document is refused for, the text that begins with it is refused for. -/
theorem Decoder.run_of_error {α : Type} {decode : Decoder α} {s : String} {m : Mismatch}
    (h : decode (Doc.ofText s).1 = .error m) : Decoder.run decode s = .error m := by
  rw [Decoder.run, bind_eq_error_iff]
  exact .inl h

theorem Decoder.finish_eq_ok_iff {α : Type} {closed : Bool} {a b : α} :
    Decoder.finish closed a = .ok b ↔ closed = true ∧ a = b := by
  cases closed with
  | true =>
      rw [Decoder.finish, if_pos rfl, Except.ok.injEq]
      exact (and_iff_right rfl).symm
  | false => exact iff_of_false (fun h => nomatch h) fun h => nomatch h.1

/-- A field that is read puts the value that was decoded into the record. -/
theorem Field.read_of_eq_ok_iff {α β : Type} {name : String} {presence : Presence}
    {decode : Decoder β} {put : β → α → α} {d : Doc} {f : α → α} :
    (Field.of name presence decode put).read d = .ok f ↔ ∃ b, decode d = .ok b ∧ f = put b := by
  show (decode d).map put = .ok f ↔ _
  rw [map_eq_ok_iff]
  simp only [eq_comm]

namespace Layout

variable {α : Type} {P : α → Prop} {fields : List (Field α)}

theorem readMembers_keeps
    (hput : ∀ f ∈ fields, ∀ d put, f.read d = .ok put → ∀ a, P a → P (put a)) :
    ∀ {members : List (Option String × Doc)} {seen seen' : List String} {a b : α}, P a →
      readMembers fields members seen a = .ok (b, seen') → P b := by
  intro members
  induction members with
  | nil =>
      intro seen seen' a b ha h
      cases h
      exact ha
  | cons member members ih =>
      intro seen seen' a b ha h
      rw [readMembers] at h
      obtain ⟨name, -, h⟩ := bind_eq_ok_iff.1 h
      -- A member with the name of a field is read into the record; another one is passed over.
      split at h
      · rename_i field hfield
        split at h
        · cases h
        · obtain ⟨put, hread, h⟩ := bind_eq_ok_iff.1 h
          exact ih (hput field (List.mem_of_find?_eq_some hfield) _ put hread a ha) h
      · obtain ⟨-, -, h⟩ := bind_eq_ok_iff.1 h
        exact ih ha h

theorem readItems_keeps (l : Layout α) {closed : Bool} :
    ∀ {fields : List (Field α)},
      (∀ f ∈ fields, ∀ d put, f.read d = .ok put → ∀ a, P a → P (put a)) →
        ∀ {items : List Doc} {length : Nat} {a b : α}, P a →
          l.readItems closed fields items length a = .ok b → P b := by
  intro fields
  induction fields with
  | nil =>
      intro _ items length a b ha h
      cases items with
      | nil =>
          obtain ⟨-, rfl⟩ := Decoder.finish_eq_ok_iff.1 h
          exact ha
      | cons item items => cases h
  | cons field fields ih =>
      intro hput items length a b ha h
      have hrest : ∀ f ∈ fields, ∀ d put, f.read d = .ok put → ∀ a, P a → P (put a) := fun f hf =>
        hput f (List.mem_cons_of_mem _ hf)
      cases items with
      | nil =>
          -- The items have run out, and the fields that are left keep their blank values.
          rw [readItems] at h
          split at h
          · cases h
          · split at h
            · exact ih hrest ha h
            · cases h
      | cons item items =>
          rw [readItems] at h
          obtain ⟨put, hread, h⟩ := bind_eq_ok_iff.1 h
          exact ih hrest (hput field List.mem_cons_self item put hread a ha) h

/-- **Reading keeps what every field keeps**, in the form of an object and in that of an array. -/
theorem decoder_keeps {l : Layout α} (hblank : P l.blank)
    (hput : ∀ f ∈ l.fields, ∀ d put, f.read d = .ok put → ∀ a, P a → P (put a)) {d : Doc} {a : α}
    (h : l.decoder d = .ok a) : P a := by
  cases d with
  | scalar s => cases h
  | array items closed => exact l.readItems_keeps hput hblank h
  | object members closed =>
      rw [decoder, readObject] at h
      obtain ⟨⟨b, seen⟩, hread, h⟩ := bind_eq_ok_iff.1 h
      obtain ⟨b', hfinish, h⟩ := bind_eq_ok_iff.1 h
      obtain ⟨-, rfl⟩ := Decoder.finish_eq_ok_iff.1 hfinish
      split at h
      · cases h
      · cases h
        exact readMembers_keeps hput hblank hread
  | broken => cases h

end Layout

end SlotPlan.Json
