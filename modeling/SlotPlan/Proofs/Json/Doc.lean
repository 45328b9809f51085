import SlotPlan.Json.Decoder
import SlotPlan.Proofs.Json.Token

/-!
# Documents are read back

The tokens of a JSON value lead a reading from the place where the value has to come to the place
behind it, whatever the containers around it and whatever tokens follow (`Reading.run_tokens`). So a
value is read back from its tokens (`Doc.ofTokens_tokens`).

A JSON value may be written in many ways (`Doc.Spelled`), and a decoder that is run on any of its texts
sees just the document (`Doc.Spelled.run`). Values are written as the documents that `Doc.Written`
builds, and `Doc.render` is one way to write them (`Doc.Written.spelled_render`).
-/

set_option autoImplicit false

namespace SlotPlan.Json

namespace Doc

/-! ## Parts of documents -/

/-- What holds of scalars and of what is broken, and of a container if it holds of its parts, holds
of every document. -/
theorem parts_induction {P : Doc → Prop} (scalar : ∀ s, P (.scalar s))
    (array : ∀ items closed, (∀ d ∈ items, P d) → P (.array items closed))
    (object : ∀ members closed, (∀ m ∈ members, P m.2) → P (.object members closed))
    (broken : P .broken) (d : Doc) : P d := by
  -- The parts of a container are the lists and pairs that the recursor goes through.
  apply @Doc.rec P (fun items => ∀ d ∈ items, P d) (fun members => ∀ m ∈ members, P m.2)
    (fun m => P m.2)
  case scalar => exact scalar
  case array => exact array
  case object => exact object
  case broken => exact broken
  case nil => exact fun d hd => absurd hd List.not_mem_nil
  case cons => exact fun d items hd hitems => List.forall_mem_cons.2 ⟨hd, hitems⟩
  case nil => exact fun m hm => absurd hm List.not_mem_nil
  case cons => exact fun m members hm hmembers => List.forall_mem_cons.2 ⟨hm, hmembers⟩
  case mk => exact fun key d hd => hd

theorem itemsComplete_iff {items : List Doc} :
    itemsComplete items = true ↔ ∀ d ∈ items, d.isComplete = true := by
  induction items with
  | nil => simp [itemsComplete]
  | cons d items ih => simp [itemsComplete, ih]

theorem membersComplete_iff {members : List (Option String × Doc)} :
    membersComplete members = true ↔ ∀ m ∈ members, m.2.isComplete = true := by
  induction members with
  | nil => simp [membersComplete]
  | cons m members ih => simp [membersComplete, ih]

theorem itemsTokens_cons_cons (d d' : Doc) (items : List Doc) :
    itemsTokens (d :: d' :: items) = d.tokens ++ .comma :: itemsTokens (d' :: items) := by
  rw [itemsTokens]
  simp

theorem membersTokens_cons_cons (m m' : Option String × Doc)
    (members : List (Option String × Doc)) :
    membersTokens (m :: m' :: members) =
      .scalar (.text m.1) :: .colon :: m.2.tokens ++ .comma :: membersTokens (m' :: members) := by
  rw [membersTokens]
  simp

theorem exists_itemsTokens_eq (d : Doc) (items : List Doc) :
    ∃ ts, itemsTokens (d :: items) = d.tokens ++ ts := by
  cases items with
  | nil => exact ⟨[], (List.append_nil _).symm⟩
  | cons d' items => exact ⟨_, itemsTokens_cons_cons d d' items⟩

theorem exists_membersTokens_eq (m : Option String × Doc) (members : List (Option String × Doc)) :
    ∃ ts, membersTokens (m :: members) = .scalar (.text m.1) :: ts := by
  cases members with
  | nil => exact ⟨_, rfl⟩
  | cons m' members => exact ⟨_, membersTokens_cons_cons m m' members⟩

/-- A JSON value begins with a token that may begin a value anywhere. -/
theorem exists_cons_tokens {d : Doc} (h : d.isComplete = true) :
    ∃ t ts, d.tokens = t :: ts ∧ ∀ place, (Reading.begin? place t).isSome = true := by
  cases d with
  | scalar s => exact ⟨.scalar s, [], rfl, fun _ => rfl⟩
  | array items closed => exact ⟨.openArray, _, rfl, fun _ => rfl⟩
  | object members closed => exact ⟨.openObject, _, rfl, fun _ => rfl⟩
  | broken => cases h

end Doc

/-! ## Reading tokens -/

namespace Reading

/-- A token that may stand where the reading is takes it further. -/
theorem run_of_next? {r r' : Reading} {t : Token} (h : r.next? t = some r') (ts : List Token) :
    r.run (t :: ts) = r'.run ts := by
  rw [run]
  · rw [h]
  · rintro d rfl
    cases h

/-- The tokens of a document lead from before it to behind it, wherever it stands. -/
def ReadsBack (d : Doc) : Prop :=
  ∀ place ts, (before place).run (d.tokens ++ ts) = (behind place d).run ts

/-- Where the end of an array may come as well, the first item is read as anywhere else. -/
theorem run_openedArray {d : Doc} (h : d.isComplete = true) (outer : Place) (ts : List Token) :
    (openedArray outer).run (d.tokens ++ ts) = (before (.item [] outer)).run (d.tokens ++ ts) := by
  obtain ⟨t, ts', htokens, hbegin⟩ := Doc.exists_cons_tokens h
  obtain ⟨r, hr⟩ := Option.isSome_iff_exists.1 (hbegin (.item [] outer))
  have hbefore : (before (.item [] outer)).next? t = some r := hr
  have hopened : (openedArray outer).next? t = some r := by
    rw [← hr]
    cases t with
    | closeArray => cases hr
    | _ => rfl
  rw [htokens, List.cons_append, run_of_next? hopened, run_of_next? hbefore]

/-- Where the end of an object may come as well, the first key is read as any other one. -/
theorem run_openedObject (key : Option String) (outer : Place) (ts : List Token) :
    (openedObject outer).run (.scalar (.text key) :: ts) =
      (beforeKey [] outer).run (.scalar (.text key) :: ts) := by
  rw [run_of_next? rfl, run_of_next? rfl]

theorem run_itemsTokens {items : List Doc} (hitems : items ≠ []) :
    (∀ d ∈ items, ReadsBack d) → ∀ (earlier : List Doc) (outer : Place) (ts : List Token),
      (before (.item earlier outer)).run (Doc.itemsTokens items ++ .closeArray :: ts) =
        (behind outer (.array (earlier.reverse ++ items) true)).run ts := by
  induction items with
  | nil => exact absurd rfl hitems
  | cons d items ih =>
      intro h earlier outer ts
      have hd := h d List.mem_cons_self
      cases items with
      | nil =>
          rw [Doc.itemsTokens, hd, run_of_next? rfl, List.reverse_cons]
      | cons d' items =>
          rw [Doc.itemsTokens_cons_cons, List.append_assoc, hd, List.cons_append,
            run_of_next? rfl, ih (List.cons_ne_nil _ _) fun x hx => h x (List.mem_cons_of_mem _ hx),
            List.reverse_cons, List.append_assoc, List.singleton_append]

theorem run_membersTokens {members : List (Option String × Doc)} (hmembers : members ≠ []) :
    (∀ m ∈ members, ReadsBack m.2) →
      ∀ (earlier : List (Option String × Doc)) (outer : Place) (ts : List Token),
        (beforeKey earlier outer).run (Doc.membersTokens members ++ .closeObject :: ts) =
          (behind outer (.object (earlier.reverse ++ members) true)).run ts := by
  induction members with
  | nil => exact absurd rfl hmembers
  | cons m members ih =>
      intro h earlier outer ts
      have hm := h m List.mem_cons_self
      cases members with
      | nil =>
          rw [Doc.membersTokens, List.cons_append, run_of_next? rfl, List.cons_append,
            run_of_next? rfl, hm, run_of_next? rfl, List.reverse_cons]
      | cons m' members =>
          rw [Doc.membersTokens_cons_cons, List.append_assoc, List.cons_append, run_of_next? rfl,
            List.cons_append, run_of_next? rfl, hm, List.cons_append, run_of_next? rfl,
            ih (List.cons_ne_nil _ _) fun x hx => h x (List.mem_cons_of_mem _ hx),
            List.reverse_cons, List.append_assoc, List.singleton_append]

/-- **The tokens of a JSON value lead from before it to behind it.** -/
theorem run_tokens {d : Doc} : d.isComplete = true → ReadsBack d := by
  induction d using Doc.parts_induction with
  | scalar s =>
      intro _ place ts
      exact run_of_next? rfl ts
  | array items closed ih =>
      intro h place ts
      rw [Doc.isComplete, Bool.and_eq_true, Doc.itemsComplete_iff] at h
      obtain ⟨hitems, rfl⟩ := h
      rw [Doc.tokens, if_pos rfl, List.append_assoc, List.cons_append, run_of_next? rfl]
      cases items with
      | nil => exact run_of_next? rfl ts
      | cons d items =>
          obtain ⟨tail, htail⟩ := Doc.exists_itemsTokens_eq d items
          rw [List.singleton_append, htail, List.append_assoc,
            run_openedArray (hitems d List.mem_cons_self), ← List.append_assoc, ← htail,
            run_itemsTokens (List.cons_ne_nil _ _) fun x hx => ih x hx (hitems x hx)]
          rfl
  | object members closed ih =>
      intro h place ts
      rw [Doc.isComplete, Bool.and_eq_true, Doc.membersComplete_iff] at h
      obtain ⟨hmembers, rfl⟩ := h
      rw [Doc.tokens, if_pos rfl, List.append_assoc, List.cons_append, run_of_next? rfl]
      cases members with
      | nil => exact run_of_next? rfl ts
      | cons m members =>
          obtain ⟨tail, htail⟩ := Doc.exists_membersTokens_eq m members
          rw [List.singleton_append, htail, List.cons_append, run_openedObject, ← List.cons_append,
            ← htail, run_membersTokens (List.cons_ne_nil _ _) fun x hx => ih x hx (hmembers x hx)]
          rfl
  | broken =>
      intro h
      cases h

end Reading

namespace Doc

/-- **A JSON value is read back from its tokens**, and the tokens behind it are left. -/
theorem ofTokens_tokens {d : Doc} (h : d.isComplete = true) (ts : List Token) :
    ofTokens (d.tokens ++ ts) = (d, ts) := by
  rw [ofTokens, Reading.run_tokens h, Reading.run]

/-! ## Documents that are written -/

/-- The documents that values are written as. Keys of an object may be repeated. -/
inductive Written : Doc → Prop where
  /-- A value without parts. -/
  | scalar {a : Scalar} (h : a.Written) : Written (.scalar a)
  /-- An array of documents that are written. -/
  | list {items : List Doc} (h : ∀ d ∈ items, Written d) : Written (.list items)
  /-- An object whose values are documents that are written. -/
  | fields {members : List (String × Doc)} (h : ∀ m ∈ members, Written m.2) :
      Written (.fields members)

namespace Written

theorem null : Written .null :=
  .scalar .null

theorem nat {n : Nat} (h : IsWord n) : Written (.nat n) :=
  .scalar (.whole h)

theorem text (s : String) : Written (.text s) :=
  .scalar (.text s)

/-- What is written is a JSON value. -/
theorem isComplete {d : Doc} (h : d.Written) : d.isComplete = true := by
  induction h with
  | scalar _ => rfl
  | list _ ih =>
      rw [Doc.list, Doc.isComplete, itemsComplete_iff.2 ih]
      rfl
  | fields _ ih =>
      rw [Doc.fields, Doc.isComplete, membersComplete_iff.2]
      · rfl
      · intro m hm
        obtain ⟨m, hmem, rfl⟩ := List.mem_map.1 hm
        exact ih m hmem

end Written

/-! ## Texts of documents -/

theorem spaced_itemsTokens {items : List Doc} (h : ∀ d ∈ items, Token.Spaced d.tokens) :
    Token.Spaced (itemsTokens items) := by
  induction items with
  | nil => exact .nil
  | cons d items ih =>
      have hd := h d List.mem_cons_self
      cases items with
      | nil => exact hd
      | cons d' items =>
          rw [itemsTokens_cons_cons]
          exact hd.append_separator_cons (by decide) (ih fun x hx => h x (List.mem_cons_of_mem _ hx))

theorem spaced_membersTokens {members : List (Option String × Doc)}
    (h : ∀ m ∈ members, Token.Spaced m.2.tokens) : Token.Spaced (membersTokens members) := by
  induction members with
  | nil => exact .nil
  | cons m members ih =>
      have hkey := Token.spaced_singleton (.scalar (.text m.1))
      have hm := hkey.append_separator_cons (t := .colon) (by decide) (h m List.mem_cons_self)
      cases members with
      | nil => exact hm
      | cons m' members =>
          rw [membersTokens_cons_cons]
          exact hm.append_separator_cons (by decide) (ih fun x hx => h x (List.mem_cons_of_mem _ hx))

/-- **No two scalars of a document stand side by side.** -/
theorem spaced_tokens (d : Doc) : Token.Spaced d.tokens := by
  -- The end of a container stands behind its parts, or is missing.
  have hcontainer : ∀ (first last : Token) (ts : List Token) (closed : Bool), first.IsSeparator →
      last.IsSeparator → Token.Spaced ts →
        Token.Spaced (first :: ts ++ if closed then [last] else []) := by
    intro first last ts closed hfirst hlast hts
    cases closed with
    | true => exact (hts.separator_cons hfirst).append_separator_cons hlast .nil
    | false =>
        show Token.Spaced (first :: ts ++ [])
        rw [List.append_nil]
        exact hts.separator_cons hfirst
  induction d using Doc.parts_induction with
  | scalar s => exact Token.spaced_singleton _
  | array items closed ih =>
      exact hcontainer _ _ _ closed (by decide) (by decide) (spaced_itemsTokens ih)
  | object members closed ih =>
      exact hcontainer _ _ _ closed (by decide) (by decide) (spaced_membersTokens ih)
  | broken => exact Token.spaced_singleton _

/-- The text is a way to write the JSON value: its tokens are written in any of their ways, with any
blanks around them. -/
structure Spelled (d : Doc) (s : String) : Prop where
  /-- The document is a JSON value. -/
  isComplete : d.isComplete = true
  /-- The text has the tokens of the document. -/
  laid : Token.Laid d.tokens s.toList

namespace Spelled

variable {d : Doc} {s : String}

/-- **A document is read back from each of its texts**, and nothing is left. -/
theorem ofText (h : d.Spelled s) : ofText s = (d, []) := by
  have htokens := ofTokens_tokens h.isComplete []
  rw [List.append_nil] at htokens
  rw [Doc.ofText, h.laid.scan d.spaced_tokens, htokens]

/-- **A decoder that is run on a text of a document sees the document.** -/
theorem run {α : Type} (decode : Decoder α) (h : d.Spelled s) : decode.run s = decode d := by
  simp only [Decoder.run, h.ofText]
  cases hdecode : decode d <;> rfl

end Spelled

/-- A text with the same blanks before each token is a way to write a document, if the writer has a way
to write each token. -/
theorem spelled_ofList {d : Doc} (hcomplete : d.isComplete = true)
    (htokens : ∀ t ∈ d.tokens, t.Spelled t.spelling) {blanks : List Char}
    (hblanks : ∀ c ∈ blanks, Token.isBlank c = true) :
    d.Spelled (String.ofList (d.tokens.flatMap fun t => blanks ++ t.spelling)) where
  isComplete := hcomplete
  laid := by
    rw [String.toList_ofList]
    exact Token.laid_flatMap hblanks htokens

/-! ## The text without blanks -/

theorem mem_itemsTokens {items : List Doc} {t : Token} (h : t ∈ itemsTokens items) :
    t.IsSeparator ∨ ∃ d ∈ items, t ∈ d.tokens := by
  induction items with
  | nil => cases h
  | cons d items ih =>
      cases items with
      | nil => exact .inr ⟨d, List.mem_cons_self, h⟩
      | cons d' items =>
          rw [itemsTokens_cons_cons, List.mem_append, List.mem_cons] at h
          rcases h with h | rfl | h
          · exact .inr ⟨d, List.mem_cons_self, h⟩
          · exact .inl (by decide)
          · obtain h | ⟨x, hx, h⟩ := ih h
            · exact .inl h
            · exact .inr ⟨x, List.mem_cons_of_mem _ hx, h⟩

theorem mem_membersTokens {members : List (Option String × Doc)} {t : Token}
    (h : t ∈ membersTokens members) :
    t.IsSeparator ∨ ∃ m ∈ members, t = .scalar (.text m.1) ∨ t ∈ m.2.tokens := by
  induction members with
  | nil => cases h
  | cons m members ih =>
      have hm : t ∈ .scalar (.text m.1) :: .colon :: m.2.tokens →
          t.IsSeparator ∨ ∃ m' ∈ m :: members, t = .scalar (.text m'.1) ∨ t ∈ m'.2.tokens := by
        intro h
        rcases List.mem_cons.1 h with rfl | h
        · exact .inr ⟨m, List.mem_cons_self, .inl rfl⟩
        · rcases List.mem_cons.1 h with rfl | h
          · exact .inl (by decide)
          · exact .inr ⟨m, List.mem_cons_self, .inr h⟩
      cases members with
      | nil => exact hm h
      | cons m' members =>
          rw [membersTokens_cons_cons] at h
          rcases List.mem_append.1 h with h | h
          · exact hm h
          · rcases List.mem_cons.1 h with rfl | h
            · exact .inl (by decide)
            · obtain h | ⟨x, hx, h⟩ := ih h
              · exact .inl h
              · exact .inr ⟨x, List.mem_cons_of_mem _ hx, h⟩

namespace Written

/-- The writer has a way to write each token of what is written. -/
theorem spelled_of_mem_tokens {d : Doc} (h : d.Written) :
    ∀ t ∈ d.tokens, t.Spelled t.spelling := by
  -- Between the ends of a container stand its parts and separators.
  have hcontainer : ∀ {first last : Token} {ts : List Token}, first.IsSeparator →
      last.IsSeparator → (∀ t ∈ ts, t.Spelled t.spelling) →
        ∀ t ∈ first :: ts ++ [last], t.Spelled t.spelling := by
    intro first last ts hfirst hlast hts
    refine List.forall_mem_append.2 ⟨List.forall_mem_cons.2 ⟨.separator hfirst, hts⟩, ?_⟩
    exact List.forall_mem_singleton.2 (.separator hlast)
  induction h with
  | scalar ha => exact List.forall_mem_singleton.2 ha.spelled
  | list _ ih =>
      refine hcontainer (by decide) (by decide) fun t ht => ?_
      obtain hseparator | ⟨d, hd, ht⟩ := mem_itemsTokens ht
      · exact .separator hseparator
      · exact ih d hd t ht
  | fields _ ih =>
      refine hcontainer (by decide) (by decide) fun t ht => ?_
      obtain hseparator | ⟨m, hm, ht⟩ := mem_membersTokens ht
      · exact .separator hseparator
      · obtain ⟨m, hmem, rfl⟩ := List.mem_map.1 hm
        rcases ht with rfl | ht
        · exact (Scalar.Written.text m.1).spelled
        · exact ih m hmem t ht

/-- **The text without blanks is a way to write a document.** -/
theorem spelled_render {d : Doc} (h : d.Written) : d.Spelled d.render :=
  have hblanks : ∀ c ∈ ([] : List Char), Token.isBlank c = true := nofun
  spelled_ofList h.isComplete h.spelled_of_mem_tokens hblanks

end Written

end Doc

end SlotPlan.Json
