import SlotPlan.Proofs.Json.Layout
import SlotPlan.Proofs.Json.Reads

/-!
# Ways to present a record

A record may be presented as an object, with its fields in any order, with other members among them
and with some fields left out, or as the array of all its fields (`Presents`). A layout that follows
the forms of the fields (`Layout.Follows`) gets the record out of each of its presentations, however
they are written (`Layout.Follows.run_eq`).

What has been read so far is right in all fields but those that are still to come (`Settled`). Reading
one more field settles this field and keeps the others, so the order of the members does not matter.
-/

set_option autoImplicit false

namespace SlotPlan.Json

/-- How a field of a record is shown. -/
structure FieldForm (α : Type) : Type 1 where
  /-- The key of the field. -/
  key : String
  /-- The type of its values. -/
  {β : Type}
  /-- The value of the field in a record. -/
  value : α → β
  /-- The documents that show a value. -/
  Shows : β → Doc → Prop
  /-- The value that the field has where it is left out, if it may be left out at all. -/
  omitted : Option β

variable {α : Type}

/-- The members of an object present a record. Their order does not matter, and neither do members
whose keys are those of no field. -/
structure MembersPresent (form : List (FieldForm α)) (a : α) (members : List (String × Doc)) :
    Prop where
  /-- A member with the key of a field shows the field. -/
  shows : ∀ f ∈ form, ∀ d, (f.key, d) ∈ members → f.Shows (f.value a) d
  /-- No field has two members. -/
  once : ∀ f ∈ form, (members.map Prod.fst).count f.key ≤ 1
  /-- A field that has no member may be left out. -/
  omitted : ∀ f ∈ form, f.key ∉ members.map Prod.fst → f.omitted = some (f.value a)

/-- The document presents a record. -/
inductive Presents (form : List (FieldForm α)) (a : α) : Doc → Prop where
  /-- As an object. -/
  | object {members : List (String × Doc)} (h : MembersPresent form a members) :
      Presents form a (.fields members)
  /-- As the array of its fields, in the order of the forms. -/
  | array {items : List Doc} (h : List.Forall₂ (fun f d => f.Shows (f.value a) d) form items) :
      Presents form a (.list items)

/-! ## Fields that are read -/

/-- Reading the field keeps another value of the record. -/
def Field.Keeps {β : Type} (field : Field α) (value : α → β) : Prop :=
  ∀ (d : Doc) (put : α → α), field.read d = .ok put → ∀ r, value (put r) = value r

theorem Field.of_name {β : Type} {name : String} {presence : Presence} {decode : Decoder β}
    {put : β → α → α} : (Field.of name presence decode put).name = name :=
  rfl

theorem Field.keeps_of {β γ : Type} {name : String} {presence : Presence} {decode : Decoder β}
    {put : β → α → α} {value : α → γ} (h : ∀ b r, value (put b r) = value r) :
    (Field.of name presence decode put).Keeps value := by
  intro d put' hread r
  obtain ⟨b, -, rfl⟩ := Field.read_of_eq_ok_iff.1 hread
  exact h b r

/-- The field of a layout is read as the form shows it, into records that begin as `blank`. -/
structure FieldForm.ReadBy (f : FieldForm α) (blank a : α) (field : Field α) : Prop where
  /-- The field has the key of the form. -/
  name_eq : field.name = f.key
  /-- What shows the value puts it into a record. -/
  read : ∀ {d : Doc}, f.Shows (f.value a) d → d.isComplete = true →
    ∃ put, field.read d = .ok put ∧ ∀ r, f.value (put r) = f.value a
  /-- If the field may be left out, it is not asked for and has its value already. -/
  omitted : f.omitted = some (f.value a) → field.presence ≠ .always ∧ f.value blank = f.value a

namespace FieldForm.ReadBy

variable {β : Type} {key : String} {value : α → β} {omitted : Option β} {presence : Presence}
  {decode : Decoder β} {put : β → α → α} {blank a : α}

theorem of {shows : β → Doc → Prop}
    (hdecode : ∀ d, shows (value a) d → d.isComplete = true → decode d = .ok (value a))
    (hput : ∀ b r, value (put b r) = b)
    (homitted : ∀ b ∈ omitted, presence ≠ .always ∧ value blank = b) :
    (FieldForm.mk key value shows omitted).ReadBy blank a (.of key presence decode put) where
  name_eq := Field.of_name
  read := fun hshows hcomplete =>
    ⟨put (value a), Field.read_of_eq_ok_iff.2 ⟨_, hdecode _ hshows hcomplete, rfl⟩, hput _⟩
  omitted := homitted _

/-- A field whose values are shown by the documents that they are written as. -/
theorem of_reads {write : β → Doc} (hread : decode.Reads (write (value a)) (value a))
    (hput : ∀ b r, value (put b r) = b)
    (homitted : ∀ b ∈ omitted, presence ≠ .always ∧ value blank = b) :
    (FieldForm.mk key value (fun b d => d = write b) omitted).ReadBy blank a
      (.of key presence decode put) := by
  refine of ?_ hput homitted
  rintro _ rfl _
  exact hread.decoded

end FieldForm.ReadBy

/-- The layout reads the fields of a record as their forms show them. -/
structure Layout.Follows (l : Layout α) (form : List (FieldForm α)) (a : α) : Prop where
  /-- The fields of the layout are those of the forms, in the same order. -/
  readBy : List.Forall₂ (fun f field => f.ReadBy l.blank a field) form l.fields
  /-- No two fields have the same key. -/
  nodup : (form.map FieldForm.key).Nodup
  /-- Reading a field keeps the others. -/
  keeps : ∀ f ∈ form, ∀ field ∈ l.fields, field.name ≠ f.key → field.Keeps f.value
  /-- A record has no more than its fields. -/
  ext : ∀ {r : α}, (∀ f ∈ form, f.value r = f.value a) → r = a

/-- All fields of the record `r` are those of `a`, but for those with the given keys. -/
def Settled (form : List (FieldForm α)) (a : α) (keys : List String) (r : α) : Prop :=
  ∀ f ∈ form, f.key ∉ keys → f.value r = f.value a

namespace Layout.Follows

variable {l : Layout α} {form : List (FieldForm α)} {a : α}

theorem map_name (h : l.Follows form a) : l.fields.map Field.name = form.map FieldForm.key := by
  have hreadBy := h.readBy
  clear h
  generalize l.fields = fields at hreadBy ⊢
  induction hreadBy with
  | nil => rfl
  | cons hfirst _ ih => rw [List.map_cons, List.map_cons, hfirst.name_eq, ih]

/-- A field is found by its key, and is read as its form shows it. -/
theorem exists_find? (h : l.Follows form a) {f : FieldForm α} (hf : f ∈ form) :
    ∃ field ∈ l.fields, l.fields.find? (·.name = f.key) = some field ∧
      f.ReadBy l.blank a field := by
  obtain ⟨field, hfield, hread⟩ : ∃ field ∈ l.fields, f.ReadBy l.blank a field := by
    obtain ⟨i, hi, rfl⟩ := List.getElem_of_mem hf
    obtain ⟨hlength, hget⟩ := List.forall₂_iff_get.1 h.readBy
    exact ⟨l.fields[i], List.getElem_mem _, hget i hi (hlength ▸ hi)⟩
  have hnodup : (l.fields.map Field.name).Nodup := h.map_name ▸ h.nodup
  exact ⟨field, hfield, hread.name_eq ▸ find?_name hnodup hfield, hread⟩

/-- A key of no form is that of no field. -/
theorem find?_eq_none (h : l.Follows form a) {key : String} (hne : ∀ f ∈ form, f.key ≠ key) :
    l.fields.find? (·.name = key) = none := by
  rw [List.find?_eq_none]
  intro field hfield hname
  have hmem : field.name ∈ form.map FieldForm.key := h.map_name ▸ List.mem_map_of_mem hfield
  obtain ⟨f, hf, hf'⟩ := List.mem_map.1 hmem
  exact hne f hf (hf'.trans (of_decide_eq_true hname))

/-- Reading a field settles it. -/
theorem settled_put (h : l.Follows form a) {f : FieldForm α} (hf : f ∈ form) {field : Field α}
    (hfield : field ∈ l.fields) (hname : field.name = f.key) {d : Doc} {put : α → α}
    (hread : field.read d = .ok put) (hput : ∀ r, f.value (put r) = f.value a)
    {keys : List String} {r : α} (hr : Settled form a (f.key :: keys) r) :
    Settled form a keys (put r) := by
  intro g hg hkey
  by_cases hgf : g.key = f.key
  · obtain rfl := List.inj_on_of_nodup_map h.nodup hg hf hgf
    exact hput r
  · rw [h.keeps g hg field hfield (hname ▸ Ne.symm hgf) d put hread]
    exact hr g hg (List.not_mem_cons_of_ne_of_not_mem hgf hkey)

/-! ## Objects -/

/-- **The members that are left settle the rest of the record**, and the fields that they name have
been seen in the end. -/
theorem readMembers_eq (h : l.Follows form a) {members : List (String × Doc)}
    (hshows : ∀ f ∈ form, ∀ d, (f.key, d) ∈ members → f.Shows (f.value a) d)
    (hcomplete : ∀ m ∈ members, m.2.isComplete = true) :
    ∀ {seen : List String} {r : α},
      (∀ f ∈ form, (seen ++ members.map Prod.fst).count f.key ≤ 1) →
        Settled form a (members.map Prod.fst) r →
          ∃ seen', readMembers l.fields (members.map fun (key, d) => (some key, d)) seen r =
              .ok (a, seen') ∧
            ∀ f ∈ form, f.key ∈ seen ++ members.map Prod.fst → f.key ∈ seen' := by
  induction members with
  | nil =>
      intro seen r _ hr
      obtain rfl := h.ext fun f hf => hr f hf List.not_mem_nil
      exact ⟨seen, rfl, fun f _ hseen => by rwa [List.map_nil, List.append_nil] at hseen⟩
  | cons m members ih =>
      intro seen r honce hr
      obtain ⟨key, d⟩ := m
      obtain ⟨hd, hcomplete⟩ := List.forall_mem_cons.1 hcomplete
      have ih := @ih (fun f hf d hd => hshows f hf d (List.mem_cons_of_mem _ hd)) hcomplete
      rw [List.map_cons] at honce hr
      by_cases hkey : ∃ f ∈ form, f.key = key
      · -- A field comes, which has not been seen before.
        obtain ⟨f, hf, rfl⟩ := hkey
        obtain ⟨field, hfield, hfind, hread⟩ := h.exists_find? hf
        obtain ⟨put, hreads, hput⟩ := hread.read (hshows f hf d List.mem_cons_self) hd
        have hnew : f.key ∉ seen := by
          have hcount := honce f hf
          rw [List.count_append, List.count_cons_self] at hcount
          exact List.count_eq_zero.1 (by omega)
        have hmove : ∀ {x}, (f.key :: seen ++ members.map Prod.fst).count x =
            (seen ++ f.key :: members.map Prod.fst).count x := fun {x} =>
          List.perm_middle.symm.count_eq x
        obtain ⟨seen', hrest, hseen⟩ := @ih (f.key :: seen) (put r)
          (fun g hg => hmove ▸ honce g hg)
          (h.settled_put hf hfield hread.name_eq hreads hput hr)
        refine ⟨seen', ?_, fun g hg hmem => hseen g hg (List.perm_middle.mem_iff.1 hmem)⟩
        rw [List.map_cons, readMembers_of_find? hfind hnew, hreads]
        exact hrest
      · -- Another member is passed over.
        have hne : ∀ f ∈ form, f.key ≠ key := fun f hf heq => hkey ⟨f, hf, heq⟩
        obtain ⟨seen', hrest, hseen⟩ := @ih seen r
          (fun f hf => by
            have hcount := honce f hf
            rwa [List.count_append, List.count_cons_of_ne (hne f hf).symm,
              ← List.count_append] at hcount)
          (fun f hf hmem => hr f hf (List.not_mem_cons_of_ne_of_not_mem (hne f hf) hmem))
        refine ⟨seen', ?_, fun f hf hmem => hseen f hf ?_⟩
        · rw [List.map_cons, readMembers_of_find?_eq_none (h.find?_eq_none hne) hd]
          exact hrest
        · rw [List.map_cons, List.mem_append, List.mem_cons] at hmem
          exact List.mem_append.2 (hmem.imp_right fun hmem => hmem.resolve_left (hne f hf))

/-- A record is read from the members that present it. -/
theorem readObject_eq (h : l.Follows form a) {members : List (String × Doc)}
    (hmembers : MembersPresent form a members) (hcomplete : ∀ m ∈ members, m.2.isComplete = true) :
    l.readObject (members.map fun (key, d) => (some key, d)) true = .ok a := by
  -- A field without a member has its value in the blank record.
  have hblank : Settled form a (members.map Prod.fst) l.blank := by
    intro f hf hkey
    obtain ⟨field, -, -, hread⟩ := h.exists_find? hf
    exact (hread.omitted (hmembers.omitted f hf hkey)).2
  have honce : ∀ f ∈ form, ([] ++ members.map Prod.fst).count f.key ≤ 1 := hmembers.once
  obtain ⟨seen, hread, hseen⟩ := h.readMembers_eq hmembers.shows hcomplete honce hblank
  have hmissing : missing? l.fields seen = none := by
    rw [missing?, Option.map_eq_none_iff, List.find?_eq_none]
    intro field hfield hasked
    obtain ⟨halways, hnew⟩ := of_decide_eq_true hasked
    have hname : field.name ∈ form.map FieldForm.key := h.map_name ▸ List.mem_map_of_mem hfield
    obtain ⟨f, hf, hf'⟩ := List.mem_map.1 hname
    obtain ⟨field', hfield', -, hread'⟩ := h.exists_find? hf
    obtain rfl : field' = field := List.inj_on_of_nodup_map (h.map_name ▸ h.nodup) hfield' hfield
      (hread'.name_eq.trans hf')
    have hkey : f.key ∉ members.map Prod.fst := fun hmem => hnew (hf' ▸ hseen f hf hmem)
    exact (hread'.omitted (hmembers.omitted f hf hkey)).1 halways
  rw [readObject, hread]
  dsimp only [Decoder.finish, bind, Except.bind, ite_true]
  rw [hmissing]
  rfl

/-! ## Arrays -/

/-- **The items that are left settle the rest of the record.** -/
theorem readItems_eq (h : l.Follows form a) {forms : List (FieldForm α)} {fields : List (Field α)}
    (hfields : List.Forall₂ (fun f field => f.ReadBy l.blank a field) forms fields) :
    (∀ f ∈ forms, f ∈ form) → (∀ field ∈ fields, field ∈ l.fields) →
      ∀ {items : List Doc} {length : Nat} {r : α},
        List.Forall₂ (fun f d => f.Shows (f.value a) d) forms items →
          (∀ d ∈ items, d.isComplete = true) → Settled form a (forms.map FieldForm.key) r →
            l.readItems true fields items length r = .ok a := by
  induction hfields with
  | nil =>
      intro _ _ items length r hshows _ hr
      cases hshows
      obtain rfl := h.ext fun f hf => hr f hf List.not_mem_nil
      rfl
  | @cons f field forms fields hfirst _ ih =>
      intro hforms hfields items length r hshows hcomplete hr
      obtain ⟨hf, hforms⟩ := List.forall_mem_cons.1 hforms
      obtain ⟨hfield, hfields⟩ := List.forall_mem_cons.1 hfields
      cases hshows with
      | @cons _ d _ items hd hshows =>
          obtain ⟨hcd, hcomplete⟩ := List.forall_mem_cons.1 hcomplete
          obtain ⟨put, hread, hput⟩ := hfirst.read hd hcd
          rw [readItems, hread]
          exact ih hforms hfields hshows hcomplete
            (h.settled_put hf hfield hfirst.name_eq hread hput hr)

/-! ## Both forms -/

/-- **A record is read from each of its presentations.** -/
theorem decoder_eq (h : l.Follows form a) {d : Doc} (hd : Presents form a d)
    (hcomplete : d.isComplete = true) : l.decoder d = .ok a := by
  cases hd with
  | @object members hmembers =>
      rw [Doc.fields, Doc.isComplete, Bool.and_eq_true, Doc.membersComplete_iff] at hcomplete
      exact h.readObject_eq hmembers (List.forall_mem_map.1 hcomplete.1)
  | array hitems =>
      rw [Doc.list, Doc.isComplete, Bool.and_eq_true, Doc.itemsComplete_iff] at hcomplete
      exact h.readItems_eq h.readBy (fun _ hf => hf) (fun _ hf => hf) hitems hcomplete.1
        fun f hf hkey => absurd (List.mem_map_of_mem hf) hkey

/-- **A record is read from each text of each of its presentations.** -/
theorem run_eq (h : l.Follows form a) {d : Doc} {s : String} (hd : Presents form a d)
    (hs : d.Spelled s) : l.decoder.run s = .ok a := by
  rw [hs.run]
  exact h.decoder_eq hd hs.isComplete

end Layout.Follows

/-! ## Lists and tables of what is presented -/

/-- What is related is related in another way, if that is so of the elements of the two lists. -/
theorem forall₂_imp_of_mem {β γ : Type} {R S : β → γ → Prop} {xs : List β} {ys : List γ}
    (h : List.Forall₂ R xs ys) (himp : ∀ x ∈ xs, ∀ y ∈ ys, R x y → S x y) :
    List.Forall₂ S xs ys := by
  induction h with
  | nil => exact .nil
  | cons hfirst _ ih =>
      refine .cons (himp _ List.mem_cons_self _ List.mem_cons_self hfirst) (ih ?_)
      exact fun x hx y hy => himp x (List.mem_cons_of_mem _ hx) y (List.mem_cons_of_mem _ hy)

namespace Decoder

variable {decode : Decoder α} {Shows : α → Doc → Prop}

/-- A list is read from the array of what shows its elements. -/
theorem list_eq_of_forall₂ {items : List Doc} {as : List α}
    (hread : ∀ a ∈ as, ∀ d, Shows a d → d.isComplete = true → decode d = .ok a)
    (h : List.Forall₂ (fun d a => Shows a d) items as)
    (hcomplete : (Doc.list items).isComplete = true) :
    Decoder.list decode (.list items) = .ok as := by
  rw [Doc.list, Doc.isComplete, Bool.and_eq_true, Doc.itemsComplete_iff] at hcomplete
  have hitems := forall₂_imp_of_mem h fun d hd a ha hshows => hread a ha d hshows (hcomplete.1 d hd)
  show items.mapM decode >>= _ = _
  rw [mapM_eq_ok_of_forall₂ hitems]
  rfl

/-- A roster is read from the object of what shows its values. -/
theorem roster_eq_of_forall₂ {members : List (String × Doc)} {r : Roster α}
    (hread : ∀ e ∈ r.entries, ∀ d, Shows e.2 d → d.isComplete = true → decode d = .ok e.2)
    (h : List.Forall₂ (fun m e => m.1 = e.1 ∧ Shows e.2 m.2) members r.entries)
    (hcomplete : (Doc.fields members).isComplete = true) :
    Decoder.roster decode (.fields members) = .ok r := by
  rw [Doc.fields, Doc.isComplete, Bool.and_eq_true, Doc.membersComplete_iff] at hcomplete
  have hcomplete : ∀ m ∈ members, m.2.isComplete = true := List.forall_mem_map.1 hcomplete.1
  have hentries : List.Forall₂ (fun m e => entry decode (some m.1, m.2) = .ok e) members
      r.entries := by
    refine forall₂_imp_of_mem h fun m hm e he hshows => ?_
    simp only [entry, key, hshows.1, hread e he m.2 hshows.2 (hcomplete m hm)]
    rfl
  show (members.map _).mapM (entry decode) >>= _ = _
  rw [mapM_eq_ok_of_forall₂ (List.forall₂_map_left_iff.2 hentries)]
  exact congrArg Except.ok r.ofList_entries

end Decoder

end SlotPlan.Json
