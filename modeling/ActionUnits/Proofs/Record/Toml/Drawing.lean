import ActionUnits.Proofs.Record.Decoding
import ActionUnits.Proofs.Record.Toml.Tables

/-! # Building a document from its lines

The tables that are built line by line have the outline that the lines draw: one
lemma for each kind of line, and from them one for all lines. Their data is what
the outline holds.
-/

namespace ActionUnits.Record.Toml

/-! ## Outlines of changed tables -/

namespace Outline

variable {outline inner : Outline} {made : Origin} {a b p : Address} {look : Look}

@[simp]
theorem add_self : outline.add made a look a = some look :=
  if_pos rfl

/-- On the way to what is added, missing tables are made. -/
theorem add_of_isPrefix (h : b <+: a) (hne : b ≠ a) :
    outline.add made a look b = (outline b).or (some (.table made)) := by
  rw [add, if_neg hne, if_pos h]

/-- Off the way to what is added, everything stays. -/
theorem add_of_not_isPrefix (h : ¬ b <+: a) : outline.add made a look b = outline b := by
  have hne : b ≠ a := by
    rintro rfl
    exact h (List.prefix_refl b)
  rw [add, if_neg hne, if_neg h, Option.or_none]

/-- What stands at an address stays. -/
theorem add_of_some {other : Look} (h : outline b = some other) (hne : b ≠ a) :
    outline.add made a look b = some other := by
  rw [add, if_neg hne, h]
  rfl

/-- Adding inside an item is adding below its address. -/
theorem add_append (hinner : ∀ c, outline (p ++ c) = inner c) (b : Address) :
    outline.add made (p ++ a) look (p ++ b) = inner.add made a look b := by
  simp only [add, List.append_cancel_left_eq, List.prefix_append_right_inj, hinner]

end Outline

theorem append_not_isPrefix {a c : Address} (hc : c ≠ []) : ¬ a ++ c <+: a := by
  intro h
  have hlength := h.length_le
  rw [List.length_append] at hlength
  have hpositive := List.length_pos_iff.mpr hc
  omega

/-- An item is added whose members were there before. -/
theorem Rebuilt.outline_eq {root root' item : Item} {made : Origin} {a : Address}
    (h : Rebuilt root root' made a item)
    (hbelow : ∀ c, c ≠ [] → item.outline c = root.outline (a ++ c)) :
    root'.outline = root.outline.add made a item.look := by
  funext b
  by_cases hb : a <+: b
  · obtain ⟨c, rfl⟩ := hb
    rw [h.inside]
    by_cases hc : c = []
    · subst hc
      rw [List.append_nil, Outline.add_self, Item.outline_nil]
    · have hpre : ¬ a ++ c <+: a := append_not_isPrefix hc
      rw [hbelow c hc, Outline.add_of_not_isPrefix hpre]
  · have hne : b ≠ a := fun hba => hb (hba ▸ List.prefix_refl _)
    rw [h.outside b hb, Outline.add, if_neg hne]

/-- Of tables that share a header, a further one changes nothing in the others. -/
theorem outline_tables_append {elements : List Entries} {c : Address} (hc : c ≠ [])
    (hlast : c ≠ [Step.index elements.length]) :
    (Item.tables (elements ++ [[]])).outline c = (Item.tables elements).outline c := by
  match c with
  | [] => exact absurd rfl hc
  | .key key :: c => rfl
  | .index i :: c =>
    rw [Item.outline_index, Item.outline_index]
    rcases Nat.lt_trichotomy i elements.length with hi | rfl | hi
    · rw [List.getElem?_append_left hi]
    · rw [List.getElem?_concat_length, List.getElem?_eq_none (Nat.le_refl _)]
      match c with
      | [] => exact absurd rfl hlast
      | .key _ :: _ => rfl
      | .index _ :: _ => rfl
    · rw [List.getElem?_eq_none (by simp; omega), List.getElem?_eq_none (by omega)]

/-- One more table is added to those that share a header. -/
theorem Rebuilt.outline_eq_of_tables {root root' : Item} {made : Origin} {a : Address}
    {elements : List Entries} (h : Rebuilt root root' made a (.tables (elements ++ [[]])))
    (hbelow : ∀ c, c ≠ [] → (Item.tables elements).outline c = root.outline (a ++ c)) :
    root'.outline = (root.outline.add made a (.tables (elements.length + 1))).add made
      (a ++ [Step.index elements.length]) (.table .header) := by
  funext b
  by_cases hb : a <+: b
  · obtain ⟨c, rfl⟩ := hb
    rw [h.inside]
    by_cases hc : c = []
    · subst hc
      rw [List.append_nil, Item.outline_nil, Outline.add_of_some Outline.add_self (by simp)]
      simp [Item.look]
    by_cases hlast : c = [Step.index elements.length]
    · subst hlast
      rw [Outline.add_self, Item.outline_index]
      simp [Item.look]
    · have hpre : ¬ a ++ c <+: a ++ [Step.index elements.length] := by
        rw [List.prefix_append_right_inj, List.prefix_cons_iff]
        rintro (h | ⟨c, rfl, h⟩)
        · exact hc h
        · exact hlast (by rw [List.prefix_nil.mp h])
      rw [outline_tables_append hc hlast, hbelow c hc, Outline.add_of_not_isPrefix hpre,
        Outline.add_of_not_isPrefix (append_not_isPrefix hc)]
  · have hself : b ≠ a := fun hba => hb (hba ▸ List.prefix_refl _)
    have hlast : b ≠ a ++ [Step.index elements.length] := fun hba => hb (hba ▸ List.prefix_append _ _)
    rw [h.outside b hb, Outline.add, if_neg hlast, Outline.add, if_neg hself]
    simp only [isPrefix_append_iff hb]
    cases root.outline b <;> split <;> rfl

/-! ## One line -/

theorem splitPath?_append (path : List String) (key : String) :
    Entries.splitPath? (path ++ [key]) = some (path, key) := by
  simp [Entries.splitPath?]

/-- Nothing stands in a table without entries. -/
theorem outline_fresh {origin : Origin} {c : Address} (hc : c ≠ []) :
    (Item.table origin []).outline c = none := by
  match c with
  | [] => exact absurd rfl hc
  | .key _ :: _ => rfl
  | .index _ :: _ => rfl

theorem outline_of_origin {origin origin' : Origin} {entries : Entries} {c : Address} (hc : c ≠ []) :
    (Item.table origin entries).outline c = (Item.table origin' entries).outline c := by
  match c with
  | [] => exact absurd rfl hc
  | .key _ :: _ => rfl
  | .index _ :: _ => rfl

/-- What stands under a key of a table stands below the address of the table. -/
theorem Spot.outline_key {root : Item} {made origin : Origin} {a : Address} {inner : Entries}
    (h : Spot root made a origin inner) (key : String) (c : Address) :
    root.outline (a ++ [Step.key key] ++ c) =
      (inner.lookup key).elim none fun item => item.outline c := by
  rw [List.append_assoc, h.below _ (by simp), List.singleton_append, Item.outline_key]

section Lines

variable {entries : Entries} {path opened : List String} {key : String} {a : Address}

/-- What the header of a table changes in the table that it stands in. -/
def withTable? (key : String) (entries : Entries) : Option Entries :=
  match entries.lookup key with
  | none => some (Named.set key (.table .header []) entries)
  | some (.table .inner inner) => some (Named.set key (.table .header inner) entries)
  | some _ => none

/-- What the header of one more table changes in the table that it stands in. -/
def withElement? (key : String) (entries : Entries) : Option Entries :=
  match entries.lookup key with
  | none => some (Named.set key (.tables [[]]) entries)
  | some (.tables elements) => some (Named.set key (.tables (elements ++ [[]])) entries)
  | some _ => none

/-- The header of a table is put into the table that its first keys lead to. -/
theorem openTable?_append (entries : Entries) (path : List String) (key : String) :
    entries.openTable? (path ++ [key]) =
      Entries.at? .inner (fun _ => withTable? key) path .header entries := by
  rw [Entries.openTable?, splitPath?_append]
  rfl

/-- The header of one more table is put into the table that its first keys lead to. -/
theorem openElement?_append (entries : Entries) (path : List String) (key : String) :
    entries.openElement? (path ++ [key]) =
      Entries.at? .inner (fun _ => withElement? key) path .header entries := by
  rw [Entries.openElement?, splitPath?_append]
  rfl

/-- A header makes a table where there is none. -/
theorem withTable?_of_none {inner : Entries} (h : inner.lookup key = none) :
    withTable? key inner = some (Named.set key (.table .header []) inner) := by
  rw [withTable?, h]

/-- A header makes a table its own that was made for one inside it. -/
theorem withTable?_of_inner {inner content : Entries}
    (h : inner.lookup key = some (.table .inner content)) :
    withTable? key inner = some (Named.set key (.table .header content) inner) := by
  rw [withTable?, h]

/-- A header with two brackets makes the first of several tables. -/
theorem withElement?_of_none {inner : Entries} (h : inner.lookup key = none) :
    withElement? key inner = some (Named.set key (.tables [[]]) inner) := by
  rw [withElement?, h]

/-- A further header with two brackets makes one more table. -/
theorem withElement?_of_tables {inner : Entries} {elements : List Entries}
    (h : inner.lookup key = some (.tables elements)) :
    withElement? key inner = some (Named.set key (.tables (elements ++ [[]])) inner) := by
  rw [withElement?, h]

/-- The header of a table changes the outline as it is drawn. -/
theorem openTable?_of_leads (hsound : (Item.table .header entries).Sound)
    (h : Leads (Item.table .header entries).outline .inner [] path a)
    (hfree : ∀ look ∈ (Item.table .header entries).outline (a ++ [Step.key key]),
      look = .table .inner) :
    ∃ entries', entries.openTable? (path ++ [key]) = some entries' ∧
      (Item.table .header entries').Sound ∧ (Item.table .header entries').outline =
        (Item.table .header entries).outline.add .inner (a ++ [Step.key key]) (.table .header) := by
  obtain ⟨o, inner, hspot, hinner, hat⟩ := at?_of_leads hsound h
  -- A new table, or one that so far had no header of its own and keeps what is in it.
  obtain ⟨item, hset, hitem, hlook, hbelow⟩ : ∃ item : Item,
      withTable? key inner = some (Named.set key item inner) ∧ item.Sound ∧
      item.look = .table .header ∧ ∀ c, c ≠ [] →
        item.outline c = (Item.table .header entries).outline (a ++ [Step.key key] ++ c) := by
    cases hitem : inner.lookup key with
    | none =>
      refine ⟨_, withTable?_of_none hitem, .fresh, rfl, fun c hc => ?_⟩
      rw [outline_fresh hc, hspot.outline_key, hitem]
      rfl
    | some item =>
      have hlook : item.look = .table .inner := by
        refine hfree _ ?_
        rw [← List.append_nil (a ++ _), hspot.outline_key, hitem]
        exact Item.outline_nil item
      cases item with
      | table origin content =>
        obtain rfl := Look.table.inj hlook
        refine ⟨_, withTable?_of_inner hitem, (hinner.of_lookup hitem).renamed, rfl,
          fun c hc => ?_⟩
        rw [hspot.outline_key, hitem]
        exact outline_of_origin hc
      | value data => cases hlook
      | tables elements => cases hlook
  obtain ⟨entries', hentries, hrebuilt, hsound'⟩ :=
    hat (fun _ => withTable? key) _ hset (hinner.set hitem)
  refine ⟨entries', (openTable?_append entries path key).trans hentries, hsound', ?_⟩
  rw [← hlook]
  exact (Rebuilt.trans hspot hrebuilt rebuilt_key).outline_eq hbelow

/-- The header of one more table changes the outline as it is drawn. -/
theorem openElement?_of_leads {count : Nat} (hsound : (Item.table .header entries).Sound)
    (h : Leads (Item.table .header entries).outline .inner [] path a)
    (hcount : count = 0 ∧ (Item.table .header entries).outline (a ++ [Step.key key]) = none ∨
      (Item.table .header entries).outline (a ++ [Step.key key]) = some (.tables count)) :
    ∃ entries', entries.openElement? (path ++ [key]) = some entries' ∧
      (Item.table .header entries').Sound ∧ (Item.table .header entries').outline =
        ((Item.table .header entries).outline.add .inner (a ++ [Step.key key])
          (.tables (count + 1))).add .inner (a ++ [Step.key key] ++ [Step.index count])
            (.table .header) := by
  obtain ⟨o, inner, hspot, hinner, hat⟩ := at?_of_leads hsound h
  -- The tables that share the header so far, if there are any.
  obtain ⟨elements, hset, helements, rfl, hbelow⟩ : ∃ elements : List Entries,
      withElement? key inner = some (Named.set key (.tables (elements ++ [[]])) inner) ∧
      (Item.tables elements).Sound ∧ elements.length = count ∧ ∀ c, c ≠ [] →
        (Item.tables elements).outline c =
          (Item.table .header entries).outline (a ++ [Step.key key] ++ c) := by
    rw [← List.append_nil (a ++ _), hspot.outline_key] at hcount
    cases hitem : inner.lookup key with
    | none =>
      rw [hitem] at hcount
      rcases hcount with ⟨rfl, -⟩ | hcount
      · refine ⟨[], withElement?_of_none hitem, .tables (fun _ h => nomatch h), rfl,
          fun c hc => ?_⟩
        rw [hspot.outline_key, hitem]
        cases c with
        | nil => exact absurd rfl hc
        | cons step c => cases step <;> rfl
      · cases hcount
    | some item =>
      rw [hitem, Option.elim_some, Item.outline_nil] at hcount
      rcases hcount with ⟨-, hnone⟩ | hcount
      · cases hnone
      · cases item with
        | tables elements =>
          cases hcount
          refine ⟨elements, withElement?_of_tables hitem, hinner.of_lookup hitem, rfl,
            fun c hc => ?_⟩
          rw [hspot.outline_key, hitem]
          rfl
        | value data => cases hcount
        | table origin content => cases hcount
  obtain ⟨entries', hentries, hrebuilt, hsound'⟩ :=
    hat (fun _ => withElement? key) _ hset (hinner.set (helements.append .fresh))
  refine ⟨entries', (openElement?_append entries path key).trans hentries, hsound', ?_⟩
  exact (Rebuilt.trans hspot hrebuilt rebuilt_key).outline_eq_of_tables hbelow

/-- A value is put under keys below a table. -/
theorem put?_of_leads {origin : Origin} {data : Data}
    (hsound : (Item.table origin entries).Sound)
    (h : Leads (Item.table origin entries).outline .keys [] path a)
    (horigin : path = [] → origin ≠ .keys)
    (hmade : path ≠ [] → ∀ look ∈ (Item.table origin entries).outline a, look = .table .keys)
    (hfree : (Item.table origin entries).outline (a ++ [Step.key key]) = none) :
    ∃ entries', entries.put? (path ++ [key]) data origin = some entries' ∧
      (Item.table origin entries').Sound ∧ (Item.table origin entries').outline =
        (Item.table origin entries).outline.add .keys (a ++ [Step.key key]) (.value data) := by
  obtain ⟨o, inner, hspot, hinner, hat⟩ := at?_of_leads hsound h
  have hlookup : inner.lookup key = none := by
    rw [hspot.below _ (by simp)] at hfree
    exact Item.lookup_eq_none hfree
  -- By keys with points a table was made exactly if such keys lead to it now.
  have hkeys : o = .keys ↔ path ≠ [] := by
    cases path with
    | nil =>
      cases h
      rcases hspot.look with hlook | ⟨hlook, -⟩ <;> cases hlook
      simpa using horigin rfl
    | cons first path =>
      refine ⟨fun _ => List.cons_ne_nil _ _, fun hpath => ?_⟩
      rcases hspot.look with hlook | ⟨-, ho⟩
      · exact Look.table.inj (hmade hpath _ hlook)
      · exact ho
  have hset : (if (o = .keys) == path.isEmpty || (inner.lookup key).isSome then none
      else some (Named.set key (.value data) inner)) = some (Named.set key (.value data) inner) := by
    rw [hlookup, if_neg]
    cases path <;> simp [hkeys]
  obtain ⟨entries', hentries, hrebuilt, hsound'⟩ := hat (fun origin entries =>
    if (origin = .keys) == path.isEmpty || (entries.lookup key).isSome then none
    else some (Named.set key (.value data) entries)) _ hset (hinner.set .value)
  refine ⟨entries', ?_, hsound', ?_⟩
  · rw [Entries.put?, splitPath?_append]
    exact hentries
  · refine (Rebuilt.trans hspot hrebuilt rebuilt_key).outline_eq fun c hc => ?_
    rw [hspot.outline_key, hlookup]
    cases c with
    | nil => exact absurd rfl hc
    | cons step c => exact Item.outline_value _ _ _

/-- A value is put under keys below the table that was opened. -/
theorem putBelow?_of_leads {b : Address} {data : Data}
    (hsound : (Item.table .header entries).Sound)
    (hopened : Leads (Item.table .header entries).outline .inner [] opened b)
    (hheader : (Item.table .header entries).outline b = some (.table .header))
    (h : Leads (Item.table .header entries).outline .keys b path a)
    (hmade : path ≠ [] → ∀ look ∈ (Item.table .header entries).outline a, look = .table .keys)
    (hfree : (Item.table .header entries).outline (a ++ [Step.key key]) = none) :
    ∃ entries', entries.putBelow? opened (path ++ [key]) data = some entries' ∧
      (Item.table .header entries').Sound ∧ (Item.table .header entries').outline =
        (Item.table .header entries).outline.add .keys (a ++ [Step.key key]) (.value data) := by
  obtain ⟨o, inner, hspot, hinner, hat⟩ := at?_of_leads hsound hopened
  obtain rfl : o = .header := by
    rcases hspot.look with hlook | ⟨hlook, -⟩ <;> rw [hheader] at hlook <;> cases hlook
    rfl
  have hbelow : ∀ c, (Item.table .header entries).outline (b ++ c) =
      (Item.table .header inner).outline c := by
    intro c
    by_cases hc : c = []
    · rw [hc, List.append_nil, hheader, Item.outline_nil]
      rfl
    · exact hspot.below c hc
  -- Seen from the table that was opened, the keys lead to the same place.
  obtain ⟨a, rfl, ha⟩ := @Leads.within _ _ _ [] _ b path (by rwa [List.append_nil]) hspot.below
  rw [List.append_assoc] at hfree
  rw [hbelow] at hmade hfree
  obtain ⟨inner', hput, hinner', houtline⟩ := put?_of_leads hinner ha nofun hmade hfree
  obtain ⟨entries', hentries, hrebuilt, hsound'⟩ := hat (Entries.put? (path ++ [key]) data) _
    hput hinner'
  refine ⟨entries', hentries, hsound', ?_⟩
  funext c
  rw [List.append_assoc]
  by_cases hc : b <+: c
  · obtain ⟨c, rfl⟩ := hc
    rw [hrebuilt.inside, houtline, Outline.add_append hbelow]
  · have hne : c ≠ b ++ (a ++ [Step.key key]) := fun hca => hc (hca ▸ List.prefix_append _ _)
    rw [hrebuilt.outside c hc, Outline.add, if_neg hne]
    simp only [isPrefix_append_iff hc]
    -- On the way to the table that was opened nothing is missing, so nothing is made there.
    by_cases hcb : c <+: b
    · obtain ⟨look, hlook⟩ := Item.exists_look hheader hcb
      rw [hlook]
      rfl
    · rw [if_neg hcb, if_neg hcb]

end Lines

/-! ## All lines -/

/-- A document is as a sketch shows it, and the keys of its last header lead to the table that was
opened last. -/
structure Pictures (sketch : Sketch) (document : Document) : Prop where
  sound : (Item.table .header document.entries).Sound
  outline : (Item.table .header document.entries).outline = sketch.outline
  opened : Leads sketch.outline .inner [] document.opened sketch.opened
  header : sketch.outline sketch.opened = some (.table .header)

/-- A document without lines has the empty outline. -/
theorem pictures_empty : Pictures .empty {} where
  sound := .fresh
  outline := by
    funext a
    by_cases ha : a = []
    · rw [ha, Item.outline_nil]
      rfl
    · rw [outline_fresh ha]
      exact (if_neg ha).symm
  opened := .here
  header := rfl

/-- Headers lead to the same table after something is added below it. -/
theorem Leads.kept_add {outline : Outline} {path : List String} {a b c : Address} {look : Look}
    (h : Leads outline .inner a path b) (hc : c ≠ []) :
    Leads (outline.add .inner (b ++ c) look) .inner a path b := by
  refine h.kept fun d hd => Outline.add_of_isPrefix (hd.trans (List.prefix_append _ _)) ?_
  rintro rfl
  exact append_not_isPrefix hc hd

/-- A document takes each line that the rules permit. -/
theorem Draws.add? {sketch next : Sketch} {line : Line} {document : Document}
    (h : Draws sketch line next) (hdocument : Pictures sketch document) :
    ∃ document', document.add? line = some document' ∧ Pictures next document' := by
  have houtline := hdocument.outline
  cases h with
  | blank => exact ⟨document, rfl, hdocument⟩
  | @table path key a hleads hfree =>
    obtain ⟨entries', hentries, hsound, houtline'⟩ :=
      openTable?_of_leads hdocument.sound (houtline ▸ hleads) (houtline ▸ hfree)
    refine ⟨⟨path ++ [key], entries'⟩, by rw [Document.add?, hentries]; rfl, hsound, ?_, ?_, ?_⟩
    · rw [houtline', houtline]
    · exact (hleads.kept_add (List.cons_ne_nil _ _)).trans (.single Outline.add_self)
    · exact Outline.add_self
  | @element path key a count hleads hcount =>
    obtain ⟨entries', hentries, hsound, houtline'⟩ :=
      openElement?_of_leads hdocument.sound (houtline ▸ hleads) (houtline ▸ hcount)
    refine ⟨⟨path ++ [key], entries'⟩, by rw [Document.add?, hentries]; rfl, hsound, ?_, ?_, ?_⟩
    · rw [houtline', houtline]
    · rw [List.append_assoc]
      refine ((hleads.kept_add (List.cons_ne_nil _ _)).kept_add (by simp)).trans ?_
      rw [← List.append_assoc]
      exact .single_last (Outline.add_of_some Outline.add_self (by simp))
    · exact Outline.add_self
  | @entry path key a data hleads hmade hfree =>
    have hheader := hdocument.header
    obtain ⟨entries', hentries, hsound, houtline'⟩ :=
      putBelow?_of_leads hdocument.sound (houtline ▸ hdocument.opened) (houtline ▸ hheader)
        (houtline ▸ hleads) (houtline ▸ hmade) (houtline ▸ hfree)
    -- The key is new, so the entry takes the place of nothing.
    have hkept : ∀ {b look}, sketch.outline b = some look →
        sketch.outline.add .keys (a ++ [Step.key key]) (.value data) b = some look := by
      intro b look hb
      refine Outline.add_of_some hb ?_
      rintro rfl
      rw [hfree] at hb
      cases hb
    refine ⟨⟨document.opened, entries'⟩, by rw [Document.add?, hentries]; rfl, hsound, ?_, ?_,
      hkept hheader⟩
    · rw [houtline', houtline]
    · refine hdocument.opened.kept fun b hb => ?_
      obtain ⟨look, hlook⟩ := Item.exists_look (houtline ▸ hheader) hb
      rw [houtline] at hlook
      exact (hkept hlook).trans (by rw [hlook]; rfl)

/-- A document takes all lines that the rules permit. -/
theorem DrawAll.foldlM {sketch last : Sketch} {lines : List Line} {document : Document}
    (h : DrawAll sketch lines last) (hdocument : Pictures sketch document) :
    ∃ document', lines.foldlM Document.add? document = some document' ∧
      Pictures last document' := by
  induction h generalizing document with
  | nil => exact ⟨document, rfl, hdocument⟩
  | cons hline _ ih =>
    obtain ⟨next, hnext, hpictures⟩ := hline.add? hdocument
    obtain ⟨document', hlast, hlast'⟩ := ih hpictures
    refine ⟨document', ?_, hlast'⟩
    rw [List.foldlM_cons, hnext]
    exact hlast

/-- A value comes from what was added or was there before. -/
theorem Outline.value_of_add {outline : Outline} {made : Origin} {a b : Address} {look : Look}
    {data : Data} (h : outline.add made a look b = some (.value data)) :
    look = .value data ∨ outline b = some (.value data) := by
  rw [Outline.add] at h
  split at h
  · exact .inl (Option.some.inj h)
  · cases hb : outline b with
    | none =>
      rw [hb] at h
      split at h <;> cases h
    | some other =>
      rw [hb] at h
      exact .inr h

/-- A value in a sketch has been there or is told by the line. -/
theorem Draws.value {sketch next : Sketch} {line : Line} (h : Draws sketch line next) {a : Address}
    {data : Data} (hvalue : next.outline a = some (.value data)) :
    sketch.outline a = some (.value data) ∨ ∃ path, line = .entry path data := by
  cases h with
  | blank => exact .inl hvalue
  | table =>
    rcases Outline.value_of_add hvalue with h | h
    · cases h
    · exact .inl h
  | element =>
    rcases Outline.value_of_add hvalue with h | h
    · cases h
    · rcases Outline.value_of_add h with h | h
      · cases h
      · exact .inl h
  | entry =>
    rcases Outline.value_of_add hvalue with h | h
    · cases h
      exact .inr ⟨_, rfl⟩
    · exact .inl h

/-- A value in a document was told by one of its lines. -/
theorem DrawAll.value {sketch last : Sketch} {lines : List Line} (h : DrawAll sketch lines last)
    {a : Address} {data : Data} (hvalue : last.outline a = some (.value data)) :
    sketch.outline a = some (.value data) ∨ ∃ path, Line.entry path data ∈ lines := by
  induction h with
  | nil => exact .inl hvalue
  | cons hline _ ih =>
    rcases ih hvalue with h | ⟨path, h⟩
    · rcases hline.value h with h | ⟨path, rfl⟩
      · exact .inl h
      · exact .inr ⟨path, List.mem_cons_self⟩
    · exact .inr ⟨path, List.mem_cons_of_mem _ h⟩

/-! ## The data of a document -/

theorem membersOf_eq_map (entries : Entries) :
    membersOf entries = entries.map fun entry => (entry.1, entry.2.data) := by
  induction entries with
  | nil => rfl
  | cons entry entries ih => rw [membersOf, ih]; rfl

theorem elementsOf_eq_map (elements : List Entries) :
    elementsOf elements = elements.map fun entries => (Item.table .header entries).data := by
  induction elements with
  | nil => rfl
  | cons entries elements ih => rw [elementsOf, ih]; rfl

theorem nodup_of_sorted {keys : List String} (h : keys.Pairwise (· < ·)) : keys.Nodup := by
  refine h.imp fun hlt => ?_
  rintro rfl
  exact String.lt_irrefl _ hlt

/-- Members are given in the order of their names, whatever order they came in. -/
theorem sortMembers_of_perm {entries members : List (String × Data)} (h : entries.Perm members)
    (hsorted : (members.map Prod.fst).Pairwise (· < ·)) :
    sortMembers entries = .members (members.map fun member => (some member.1, member.2)) true := by
  have hle : ∀ {a b : String × Data}, (decide (a.1 ≤ b.1)) = true ↔ a.1 ≤ b.1 := decide_eq_true_iff
  have hmembers : members.Pairwise fun a b => decide (a.1 ≤ b.1) = true :=
    (List.pairwise_map.mp hsorted).imp fun h => hle.mpr (Std.le_of_lt h)
  have hnodup : (members.map Prod.fst).Nodup :=
    nodup_of_sorted hsorted
  have hsort : (entries.mergeSort fun a b => decide (a.1 ≤ b.1)) = members := by
    refine List.Perm.eq_of_pairwise (fun a b ha hb hab hba => ?_)
      (List.pairwise_mergeSort (fun a b c hab hbc => ?_) (fun a b => ?_) entries) hmembers
      ((List.mergeSort_perm _ _).trans h)
    · exact List.inj_on_of_nodup_map hnodup (h.mem_iff.mp ((List.mergeSort_perm _ _).mem_iff.mp ha))
        hb (String.le_antisymm (hle.mp hab) (hle.mp hba))
    · exact hle.mpr (String.le_trans (hle.mp hab) (hle.mp hbc))
    · rw [Bool.or_eq_true, hle, hle]
      exact String.le_total _ _
  rw [sortMembers, hsort]

/-- The data of an item is what its outline holds. -/
theorem data_of_holds {outline : Outline} {a : Address} {data : Data} (h : Holds outline a data)
    {item : Item} (hsound : item.Sound) (hitem : ∀ c, item.outline c = outline (a ++ c)) :
    item.data = data := by
  induction h generalizing item with
  | @value a data hlook =>
    have hroot := hitem []
    rw [List.append_nil, hlook, Item.outline_nil] at hroot
    cases item <;> cases hroot
    rfl
  | @table a origin members hlook hsorted hkeys _ ih =>
    have hroot := hitem []
    rw [List.append_nil, hlook, Item.outline_nil] at hroot
    match item with
    | .table _ entries =>
      have hkey : ∀ key, outline (a ++ [Step.key key]) = (entries.lookup key).map Item.look :=
        fun key => (hitem [Step.key key]).symm.trans (Item.outline_single _ _ _)
      have hdata : ∀ member ∈ members, ∀ inner, entries.lookup member.1 = some inner →
          inner.data = member.2 := by
        intro member hmember inner hinner
        refine ih member hmember (hsound.of_lookup hinner) fun c => ?_
        rw [List.append_assoc, ← hitem, List.singleton_append, Item.outline_key, hinner]
        rfl
      have hnodup : (entries.map Prod.fst).Nodup := by
        cases hsound with
        | table hnodup _ => exact hnodup
      rw [Item.data, membersOf_eq_map]
      -- Both lists have each key once, so they are equal up to order if they have the same members.
      refine sortMembers_of_perm ((List.perm_ext_iff_of_nodup ?_ ?_).mpr ?_) hsorted
      · exact List.Nodup.of_map Prod.fst (by rw [List.map_map]; exact hnodup)
      · exact List.Nodup.of_map Prod.fst (nodup_of_sorted hsorted)
      rintro ⟨key, data⟩
      constructor
      · intro hmem
        obtain ⟨⟨key, inner⟩, hentry, heq⟩ := List.mem_map.mp hmem
        cases heq
        have hinner := Named.lookup_of_mem hnodup hentry
        obtain ⟨member, hmember, rfl⟩ := List.mem_map.mp ((hkeys key).mpr (by simp [hkey, hinner]))
        rwa [hdata member hmember inner hinner]
      · intro hmember
        have hsome := (hkeys key).mp (List.mem_map_of_mem hmember)
        rw [hkey, Ne, Option.map_eq_none_iff] at hsome
        obtain ⟨inner, hinner⟩ := Option.ne_none_iff_exists'.mp hsome
        exact List.mem_map.mpr ⟨(key, inner), Named.mem_of_lookup hinner,
          by rw [hdata _ hmember inner hinner]⟩
  | @tables a elements hlook _ ih =>
    have hroot := hitem []
    rw [List.append_nil, hlook, Item.outline_nil] at hroot
    match item with
    | .tables tables =>
      have hlength : tables.length = elements.length := by simpa [Item.look] using hroot
      rw [Item.data, elementsOf_eq_map]
      congr 1
      refine List.ext_getElem? fun i => ?_
      rw [List.getElem?_map]
      cases helement : elements[i]? with
      | none =>
        rw [List.getElem?_eq_none (hlength ▸ List.getElem?_eq_none_iff.mp helement)]
        rfl
      | some element =>
        obtain ⟨hi, -⟩ := List.getElem?_eq_some_iff.mp helement
        have htable : tables[i]? = some tables[i] := List.getElem?_eq_getElem (hlength ▸ hi)
        rw [htable, Option.map_some, ih i element helement ?_ fun c => ?_]
        · cases hsound with
          | tables hall => exact hall _ (List.getElem_mem _)
        · rw [List.append_assoc, ← hitem, List.singleton_append, Item.outline_index, htable]
          rfl

/-- A document has the data that its lines tell. -/
theorem data_of_drawAll {lines : List Line} {last : Sketch} {data : Data}
    (h : DrawAll .empty lines last) (hdata : Holds last.outline [] data) :
    ∃ document, lines.foldlM Document.add? {} = some document ∧ document.entries.data = data := by
  obtain ⟨document, hdocument, hpictures⟩ := h.foldlM pictures_empty
  exact ⟨document, hdocument,
    data_of_holds hdata hpictures.sound fun c => congrFun hpictures.outline c⟩

/-- The data of a document is whole if all its values are. -/
theorem isWhole_of_holds {outline : Outline} {a : Address} {data : Data}
    (h : Holds outline a data)
    (hvalues : ∀ b value, outline b = some (.value value) → value.isWhole = true) :
    data.isWhole = true := by
  induction h with
  | value hlook => exact hvalues _ _ hlook
  | table _ _ _ _ ih =>
    refine isWhole_members_iff.mpr fun entry hentry => ?_
    obtain ⟨member, hmember, rfl⟩ := List.mem_map.mp hentry
    exact ih member hmember
  | tables _ _ ih =>
    refine isWhole_list_iff.mpr fun element helement => ?_
    obtain ⟨i, hi⟩ := List.mem_iff_getElem?.mp helement
    exact ih i element hi

end ActionUnits.Record.Toml
