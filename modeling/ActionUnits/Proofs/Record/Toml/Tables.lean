import ActionUnits.Record.Toml.Document
import Mathlib.Data.List.Infix
import Mathlib.Data.List.Nodup

/-! # What the lines of a document say

A document is told by its outline: what stands at each address. Keys lead from a
table to its members, and indices to the tables that share a header. Each line
adds to the outline, if the rules for tables permit it. The tables that are built
line by line have the outline that the lines draw, and so the data that it holds.
-/

namespace ActionUnits.Record.Toml

/-! ## Outlines -/

/-- A step from a table to a member, or to one of the tables that share a header. -/
inductive Step where
  | key (key : String)
  | index (index : Nat)
deriving DecidableEq

/-- The steps from the document to something in it. -/
abbrev Address := List Step

/-- What stands at an address. -/
inductive Look where
  | value (data : Data)
  | table (origin : Origin)
  /-- So many tables that share a header. -/
  | tables (count : Nat)

abbrev Outline := Address → Option Look

/-- Adds something at an address; tables on the way are made if they are missing. -/
def Outline.add (outline : Outline) (made : Origin) (a : Address) (look : Look) : Outline := fun b =>
  if b = a then some look else (outline b).or (if b <+: a then some (.table made) else none)

/-- Keys lead from one table to another. Of tables that share a header, the last one is entered.
Keys with points do not lead into a table that has its own header. -/
inductive Leads (outline : Outline) (made : Origin) : Address → List String → Address → Prop
  | here {a} : Leads outline made a [] a
  | missing {a key path b} : outline (a ++ [Step.key key]) = none →
    Leads outline made (a ++ [Step.key key]) path b → Leads outline made a (key :: path) b
  | table {a key origin path b} : outline (a ++ [Step.key key]) = some (.table origin) →
    ¬ (made = .keys ∧ origin = .header) → Leads outline made (a ++ [Step.key key]) path b →
    Leads outline made a (key :: path) b
  | last {a key count path b} : outline (a ++ [Step.key key]) = some (.tables (count + 1)) →
    Leads outline made (a ++ [Step.key key] ++ [Step.index count]) path b →
    Leads outline made a (key :: path) b

/-- A document as its lines have drawn it so far: the table that was opened last, and everything
there is. -/
structure Sketch where
  opened : Address
  outline : Outline

def Sketch.empty : Sketch where
  opened := []
  outline a := if a = [] then some (.table .header) else none

/-- What a line adds to a document. -/
inductive Draws : Sketch → Line → Sketch → Prop
  | blank {sketch} : Draws sketch .blank sketch
  /-- A table gets its header where there is none, or only tables inside it have one. -/
  | table {sketch path key a} : Leads sketch.outline .inner [] path a →
    (∀ look ∈ sketch.outline (a ++ [Step.key key]), look = .table .inner) →
    Draws sketch (.table (path ++ [key]))
      ⟨a ++ [Step.key key], sketch.outline.add .inner (a ++ [Step.key key]) (.table .header)⟩
  /-- One more table shares a header. -/
  | element {sketch path key a count} : Leads sketch.outline .inner [] path a →
    (count = 0 ∧ sketch.outline (a ++ [Step.key key]) = none ∨
      sketch.outline (a ++ [Step.key key]) = some (.tables count)) →
    Draws sketch (.element (path ++ [key])) ⟨a ++ [Step.key key] ++ [Step.index count],
      (sketch.outline.add .inner (a ++ [Step.key key]) (.tables (count + 1))).add .inner
        (a ++ [Step.key key] ++ [Step.index count]) (.table .header)⟩
  /-- A key is used once, and keys with points add to no table but those that such keys make. -/
  | entry {sketch path key a data} : Leads sketch.outline .keys sketch.opened path a →
    (path ≠ [] → ∀ look ∈ sketch.outline a, look = .table .keys) →
    sketch.outline (a ++ [Step.key key]) = none →
    Draws sketch (.entry (path ++ [key]) data)
      { sketch with outline := sketch.outline.add .keys (a ++ [Step.key key]) (.value data) }

/-- What lines add to a document, one after the other. -/
inductive DrawAll : Sketch → List Line → Sketch → Prop
  | nil {sketch} : DrawAll sketch [] sketch
  | cons {sketch line next lines last} : Draws sketch line next → DrawAll next lines last →
    DrawAll sketch (line :: lines) last

/-- The data at an address. The members of a table are given in the order of their names. -/
inductive Holds (outline : Outline) : Address → Data → Prop
  | value {a data} : outline a = some (.value data) → Holds outline a data
  | table {a origin} {members : List (String × Data)} : outline a = some (.table origin) →
    (members.map Prod.fst).Pairwise (· < ·) →
    (∀ key, key ∈ members.map Prod.fst ↔ outline (a ++ [Step.key key]) ≠ none) →
    (∀ member ∈ members, Holds outline (a ++ [Step.key member.1]) member.2) →
    Holds outline a (.members (members.map fun member => (some member.1, member.2)) true)
  | tables {a} {elements : List Data} : outline a = some (.tables elements.length) →
    (∀ i element, elements[i]? = some element → Holds outline (a ++ [Step.index i]) element) →
    Holds outline a (.list elements true)

/-! ### Leading and adding -/

namespace Leads

variable {outline inner outline' : Outline} {made : Origin} {a b c p : Address}
  {path more : List String} {key : String}

/-- Keys lead to something below the place where they start. -/
theorem isPrefix (h : Leads outline made a path b) : a <+: b := by
  induction h with
  | here => exact List.prefix_refl _
  | missing _ _ ih => exact (List.prefix_append _ _).trans ih
  | table _ _ _ ih => exact (List.prefix_append _ _).trans ih
  | last _ _ ih => exact ((List.prefix_append _ _).trans (List.prefix_append _ _)).trans ih

/-- Keys may be followed in two parts. -/
theorem trans (h : Leads outline made a path b) (h' : Leads outline made b more c) :
    Leads outline made a (path ++ more) c := by
  induction h with
  | here => exact h'
  | missing hnone _ ih => exact .missing hnone (ih h')
  | table htable hmade _ ih => exact .table htable hmade (ih h')
  | last hlast _ ih => exact .last hlast (ih h')

/-- Keys lead to the same place if it is seen from an item on the way. -/
theorem within (h : Leads outline made (p ++ a) path b)
    (hinner : ∀ c, c ≠ [] → outline (p ++ c) = inner c) :
    ∃ b', b = p ++ b' ∧ Leads inner made a path b' := by
  generalize hstart : p ++ a = start at h
  have hkey : ∀ {a key}, outline (p ++ a ++ [Step.key key]) = inner (a ++ [Step.key key]) := by
    intro a key
    rw [List.append_assoc, hinner _ (by simp)]
  induction h generalizing a with
  | here =>
    subst hstart
    exact ⟨a, rfl, .here⟩
  | missing hnone _ ih =>
    subst hstart
    obtain ⟨b', rfl, hb⟩ := ih (List.append_assoc _ _ _).symm
    exact ⟨b', rfl, .missing (hkey ▸ hnone) hb⟩
  | table htable hmade _ ih =>
    subst hstart
    obtain ⟨b', rfl, hb⟩ := ih (List.append_assoc _ _ _).symm
    exact ⟨b', rfl, .table (hkey ▸ htable) hmade hb⟩
  | @last _ key count _ _ hlast _ ih =>
    subst hstart
    obtain ⟨b', rfl, hb⟩ :=
      @ih (a ++ [Step.key key] ++ [Step.index count]) (by simp only [List.append_assoc])
    exact ⟨b', rfl, .last (hkey ▸ hlast) hb⟩

/-- Headers lead to the same place once the tables on the way are made. -/
theorem kept (h : Leads outline .inner a path b)
    (hadd : ∀ c, c <+: b → outline' c = (outline c).or (some (.table .inner))) :
    Leads outline' .inner a path b := by
  have hinner : ¬ (Origin.inner = .keys ∧ Origin.inner = .header) := nofun
  induction h with
  | here => exact .here
  | missing hnone hrest ih =>
    exact .table (by rw [hadd _ hrest.isPrefix, hnone]; rfl) hinner (ih hadd)
  | table htable hmade hrest ih =>
    exact .table (by rw [hadd _ hrest.isPrefix, htable]; rfl) (fun h => nomatch h.1) (ih hadd)
  | last hlast hrest ih =>
    have hpre := (List.prefix_append _ _).trans hrest.isPrefix
    exact .last (by rw [hadd _ hpre, hlast]; rfl) (ih hadd)

/-- A key leads into a table with its own header. -/
theorem single (h : outline (a ++ [Step.key key]) = some (.table .header)) :
    Leads outline .inner a [key] (a ++ [Step.key key]) :=
  .table h (fun h => nomatch h.1) .here

/-- Of tables that share a header, a key leads into the last one. -/
theorem single_last {count : Nat} (h : outline (a ++ [Step.key key]) = some (.tables (count + 1))) :
    Leads outline .inner a [key] (a ++ [Step.key key] ++ [Step.index count]) :=
  .last h .here

end Leads

/-! ## Items -/

namespace Item

def look : Item → Look
  | .value data => .value data
  | .table origin _ => .table origin
  | .tables elements => .tables elements.length

def find? : Item → Address → Option Item
  | item, [] => some item
  | .table _ entries, .key key :: a => (entries.lookup key).elim none fun item => item.find? a
  | .tables elements, Step.index i :: a =>
    elements[i]?.elim none fun entries => (Item.table .header entries).find? a
  | _, _ :: _ => none

def outline (item : Item) : Outline := fun a =>
  (item.find? a).map look

@[simp]
theorem outline_nil (item : Item) : item.outline [] = some item.look := by
  rw [outline, find?]
  rfl

/-- What a table holds stands below its keys. -/
theorem outline_key (origin : Origin) (entries : Entries) (key : String) (a : Address) :
    (Item.table origin entries).outline (.key key :: a) =
      (entries.lookup key).elim none fun item => item.outline a := by
  rw [outline, find?]
  cases entries.lookup key <;> rfl

theorem outline_single (origin : Origin) (entries : Entries) (key : String) :
    (Item.table origin entries).outline [Step.key key] = (entries.lookup key).map look := by
  rw [outline_key]
  cases entries.lookup key with
  | none => rfl
  | some item => exact outline_nil item

/-- A key at whose address nothing stands is not in the table. -/
theorem lookup_eq_none {origin : Origin} {entries : Entries} {key : String}
    (h : (Item.table origin entries).outline [Step.key key] = none) : entries.lookup key = none := by
  rwa [outline_single, Option.map_eq_none_iff] at h

/-- A key at whose address a table stands holds this table. -/
theorem lookup_table {origin origin' : Origin} {entries : Entries} {key : String}
    (h : (Item.table origin entries).outline [Step.key key] = some (.table origin')) :
    ∃ inner, entries.lookup key = some (.table origin' inner) := by
  rw [outline_single] at h
  obtain ⟨item, hitem, hlook⟩ := Option.map_eq_some_iff.mp h
  cases item <;> cases hlook
  exact ⟨_, hitem⟩

/-- A key at whose address several tables stand holds them all. -/
theorem lookup_tables {origin : Origin} {entries : Entries} {key : String} {count : Nat}
    (h : (Item.table origin entries).outline [Step.key key] = some (.tables count)) :
    ∃ elements, entries.lookup key = some (.tables elements) ∧ elements.length = count := by
  rw [outline_single] at h
  obtain ⟨item, hitem, hlook⟩ := Option.map_eq_some_iff.mp h
  cases item <;> cases hlook
  exact ⟨_, hitem, rfl⟩

/-- What tables with a common header hold stands below their indices. -/
theorem outline_index (elements : List Entries) (i : Nat) (a : Address) :
    (Item.tables elements).outline (.index i :: a) =
      elements[i]?.elim none fun entries => (Item.table .header entries).outline a := by
  rw [outline, find?]
  cases elements[i]? <;> rfl

theorem outline_value (data : Data) (step : Step) (a : Address) :
    (Item.value data).outline (step :: a) = none := by
  cases step <;> rfl

theorem outline_table_index (origin : Origin) (entries : Entries) (i : Nat) (a : Address) :
    (Item.table origin entries).outline (.index i :: a) = none := rfl

theorem outline_tables_key (elements : List Entries) (key : String) (a : Address) :
    (Item.tables elements).outline (.key key :: a) = none := rfl

/-- Nothing stands below an address at which nothing stands. -/
theorem outline_eq_none {item : Item} {a : Address} (h : item.outline a = none) (b : Address) :
    item.outline (a ++ b) = none := by
  induction a generalizing item with
  | nil => rw [outline_nil] at h; cases h
  | cons step a ih =>
    match item, step with
    | .value data, step => exact outline_value _ _ _
    | .table origin entries, Step.index i => rfl
    | .tables elements, .key key => rfl
    | .table origin entries, .key key =>
      rw [List.cons_append, outline_key]
      rw [outline_key] at h
      cases hitem : entries.lookup key with
      | none => rfl
      | some inner => exact ih (by rwa [hitem] at h)
    | .tables elements, Step.index i =>
      rw [List.cons_append, outline_index]
      rw [outline_index] at h
      cases hitem : elements[i]? with
      | none => rfl
      | some inner => exact ih (by rwa [hitem] at h)

end Item

/-! ### Sound items -/

/-- In no table does a key occur twice. -/
inductive Item.Sound : Item → Prop
  | value {data} : Sound (.value data)
  | table {origin} {entries : Entries} : (entries.map Prod.fst).Nodup →
    (∀ entry ∈ entries, Sound entry.2) → Sound (.table origin entries)
  | tables {elements : List Entries} : (∀ entries ∈ elements, Sound (.table .header entries)) →
    Sound (.tables elements)

namespace Item.Sound

variable {origin origin' : Origin} {entries : Entries} {key : String} {item : Item}
  {elements others : List Entries}

/-- A table without entries is sound. -/
theorem fresh : (Item.table origin []).Sound :=
  .table List.nodup_nil fun _ h => nomatch h

/-- Soundness does not depend on where a table comes from. -/
theorem renamed (h : (Item.table origin entries).Sound) : (Item.table origin' entries).Sound := by
  cases h with
  | table hnodup hentries => exact .table hnodup hentries

/-- What is in a sound table is sound. -/
theorem of_lookup (h : (Item.table origin entries).Sound) (hitem : entries.lookup key = some item) :
    item.Sound := by
  cases h with
  | table _ hentries =>
    exact hentries _ (Named.mem_of_lookup hitem)

/-- A sound item may be put into a sound table. -/
theorem set (h : (Item.table origin entries).Sound) (hitem : item.Sound) :
    (Item.table origin (Named.set key item entries)).Sound := by
  cases h with
  | table hnodup hentries =>
    refine .table ?_ fun entry hentry => ?_
    · rw [Named.names_set]
      split
      · exact hnodup
      · next hkey =>
        rw [← List.concat_eq_append]
        exact List.Nodup.concat hkey hnodup
    · rcases Named.mem_set hentry with rfl | hentry
      · exact hitem
      · exact hentries entry hentry

/-- A sound table may be added to others that share its header. -/
theorem append (h : (Item.tables others).Sound) (hentries : (Item.table .header entries).Sound) :
    (Item.tables (others ++ [entries])).Sound := by
  cases h with
  | tables hothers =>
    refine .tables fun element helement => ?_
    rcases List.mem_append.mp helement with helement | helement
    · exact hothers element helement
    · obtain rfl := List.mem_singleton.mp helement
      exact hentries

theorem of_append (h : (Item.tables (others ++ [entries])).Sound) :
    (Item.tables others).Sound ∧ (Item.table .header entries).Sound := by
  cases h with
  | tables hall =>
    exact ⟨.tables fun element helement => hall element (List.mem_append_left _ helement),
      hall entries (by simp)⟩

end Item.Sound

/-- Something stands on the way to an address at which something stands. -/
theorem Item.exists_look {item : Item} {a b : Address} {look : Look}
    (h : item.outline b = some look) (hpre : a <+: b) : ∃ look, item.outline a = some look := by
  obtain ⟨c, rfl⟩ := hpre
  cases ha : item.outline a with
  | none => rw [Item.outline_eq_none ha] at h; cases h
  | some look => exact ⟨look, rfl⟩

/-! ## Changing a table -/

/-- Addresses on the way to a place below a table, but not in the table, are on the way to it. -/
theorem isPrefix_append_iff {a b c : Address} (h : ¬ a <+: c) : c <+: a ++ b ↔ c <+: a := by
  constructor
  · intro hpre
    rcases List.prefix_or_prefix_of_prefix hpre (List.prefix_append a b) with h' | h'
    · exact h'
    · exact absurd h' h
  · exact fun hpre => hpre.trans (List.prefix_append a b)

/-- The table at an address below an item, or the one that is made there. -/
structure Spot (root : Item) (made : Origin) (a : Address) (origin : Origin) (inner : Entries) :
    Prop where
  look : root.outline a = some (.table origin) ∨ root.outline a = none ∧ origin = made
  below : ∀ c, c ≠ [] → root.outline (a ++ c) = (Item.table origin inner).outline c

/-- One item is another one but for what stands at an address; tables on the way are made if they
are missing. -/
structure Rebuilt (root root' : Item) (made : Origin) (a : Address) (item : Item) : Prop where
  inside : ∀ c, root'.outline (a ++ c) = item.outline c
  outside : ∀ b, ¬ a <+: b →
    root'.outline b = (root.outline b).or (if b <+: a then some (.table made) else none)

section Change

variable {root root' item : Item} {made origin origin' : Origin} {a b : Address}
  {mid mid' inner : Entries}

/-- A table is at no distance from itself. -/
theorem Spot.here : Spot (.table origin inner) made [] origin inner where
  look := .inl (Item.outline_nil _)
  below _ _ := rfl

/-- A table inside a table is found on the way through both. -/
theorem Spot.trans (h : Spot root made a origin mid)
    (h' : Spot (.table origin mid) made b origin' inner) : Spot root made (a ++ b) origin' inner where
  look := by
    cases b with
    | nil =>
      rcases h'.look with htable | ⟨hnone, -⟩
      · rw [List.append_nil]
        cases htable
        exact h.look
      · cases hnone
    | cons step b =>
      rw [h.below _ (List.cons_ne_nil _ _)]
      exact h'.look
  below c hc := by
    rw [List.append_assoc, h.below _ (List.append_ne_nil_of_right_ne_nil _ hc), h'.below c hc]

/-- An item may be replaced as a whole. -/
theorem Rebuilt.here : Rebuilt root item made [] item where
  inside _ := rfl
  outside _ hb := absurd List.nil_prefix hb

/-- A change of a table inside a table changes the outer one. -/
theorem Rebuilt.trans (hspot : Spot root made a origin mid)
    (h : Rebuilt root root' made a (.table origin mid'))
    (h' : Rebuilt (.table origin mid) (.table origin mid') made b item) :
    Rebuilt root root' made (a ++ b) item where
  inside c := by
    rw [List.append_assoc, h.inside, h'.inside]
  outside c hc := by
    by_cases hac : a <+: c
    · obtain ⟨d, rfl⟩ := hac
      have hd : ¬ b <+: d := fun hbd => hc ((List.prefix_append_right_inj a).mpr hbd)
      rw [h.inside, h'.outside d hd]
      simp only [List.prefix_append_right_inj]
      cases d with
      -- The table that is changed: it is there before the change, or it is made on the way.
      | nil =>
        rw [List.append_nil, if_pos List.nil_prefix]
        rcases hspot.look with htable | ⟨hnone, rfl⟩
        · rw [htable]
          rfl
        · rw [hnone]
          rfl
      | cons step d => rw [hspot.below _ (List.cons_ne_nil _ _)]
    · rw [h.outside c hac]
      simp only [isPrefix_append_iff hac]

variable {entries : Entries} {key : String}

/-- A missing table is made where it is entered. -/
theorem spot_missing (h : entries.lookup key = none) :
    Spot (.table origin entries) made [Step.key key] made [] where
  look := .inr ⟨by rw [Item.outline_key, h]; rfl, rfl⟩
  below c hc := by
    rw [List.singleton_append, Item.outline_key, h]
    match c with
    | .key key :: c => rfl
    | .index i :: c => rfl

/-- A table that is there is entered. -/
theorem spot_table (h : entries.lookup key = some (.table origin' inner)) :
    Spot (.table origin entries) made [Step.key key] origin' inner where
  look := .inl (by rw [Item.outline_key, h]; exact Item.outline_nil _)
  below c hc := by
    rw [List.singleton_append, Item.outline_key, h]
    rfl

/-- Of tables that share a header the last one is entered. -/
theorem spot_last {others : List Entries}
    (h : entries.lookup key = some (.tables (others ++ [inner]))) :
    Spot (.table origin entries) made [Step.key key, Step.index others.length] .header inner where
  look := .inl (by
    rw [Item.outline_key, h, Option.elim_some, Item.outline_index]
    simp [Item.look])
  below c hc := by
    rw [List.cons_append, Item.outline_key, h, Option.elim_some, List.singleton_append,
      Item.outline_index]
    simp

/-- Setting a key changes what stands below it and nothing else. -/
theorem rebuilt_key : Rebuilt (.table origin entries)
    (.table origin (Named.set key item entries)) made [Step.key key] item where
  inside c := by
    rw [List.singleton_append, Item.outline_key, Named.lookup_set_self]
    rfl
  outside b hb := by
    cases b with
    | nil => rfl
    | cons step b =>
      have hstep : ¬ step :: b <+: [Step.key key] := by
        intro hpre
        obtain ⟨rfl, -⟩ := List.cons_prefix_cons.mp hpre
        exact hb (List.cons_prefix_cons.mpr ⟨rfl, List.nil_prefix⟩)
      rw [if_neg hstep, Option.or_none]
      cases step with
      | index i => rfl
      | key other =>
        have hne : other ≠ key := by
          rintro rfl
          exact hb (List.cons_prefix_cons.mpr ⟨rfl, List.nil_prefix⟩)
        rw [Item.outline_key, Item.outline_key, Named.lookup_set_of_ne hne]

/-- Changing the last of several tables changes what stands below it and nothing else. -/
theorem rebuilt_last {others : List Entries} {inner' : Entries}
    (h : entries.lookup key = some (.tables (others ++ [inner]))) :
    Rebuilt (.table origin entries)
      (.table origin (Named.set key (.tables (others ++ [inner'])) entries)) made
      [Step.key key, Step.index others.length] (.table .header inner') where
  inside c := by
    rw [List.cons_append, Item.outline_key, Named.lookup_set_self, Option.elim_some,
      List.singleton_append, Item.outline_index]
    simp
  outside b hb := by
    match b with
    | [] => rfl
    | .index i :: c => simp [Item.outline_table_index]
    | .key other :: c =>
      by_cases hother : other = key
      · subst hother
        rw [Item.outline_key, Item.outline_key, Named.lookup_set_self, h, Option.elim_some,
          Option.elim_some]
        match c with
        | [] => simp [Item.look]
        | .key next :: c => simp [Item.outline_tables_key]
        | .index i :: c =>
          have hi : i ≠ others.length := by
            rintro rfl
            exact hb (by simp)
          -- The other tables under the header are the same as before.
          have hget : (others ++ [inner'])[i]? = (others ++ [inner])[i]? := by
            rcases Nat.lt_or_gt_of_ne hi with hlt | hgt
            · rw [List.getElem?_append_left hlt, List.getElem?_append_left hlt]
            · rw [List.getElem?_eq_none (by simp; omega), List.getElem?_eq_none (by simp; omega)]
          rw [Item.outline_index, Item.outline_index, hget]
          simp [hi]
      · rw [Item.outline_key, Item.outline_key, Named.lookup_set_of_ne hother]
        simp [hother]

/-- The table to which keys lead is found, and it is the only one that is changed. -/
theorem at?_of_leads {path : List String} (hsound : (Item.table origin entries).Sound)
    (h : Leads (Item.table origin entries).outline made [] path a) :
    ∃ o inner, Spot (.table origin entries) made a o inner ∧ (Item.table o inner).Sound ∧
      ∀ change inner', change o inner = some inner' → (Item.table o inner').Sound → ∃ entries',
        Entries.at? made change path origin entries = some entries' ∧
        Rebuilt (.table origin entries) (.table origin entries') made a (.table o inner') ∧
        (Item.table origin entries').Sound := by
  induction path generalizing origin entries a with
  | nil =>
    cases h with
    | here =>
      exact ⟨origin, entries, .here, hsound, fun change inner' h h' => ⟨inner', h, .here, h'⟩⟩
  | cons key path ih =>
    -- The first key leads to a table, below which the other keys lead on.
    have hstep : ∀ {p o mid} {rebuild : Entries → Entries},
        Spot (.table origin entries) made p o mid → (Item.table o mid).Sound →
        (∀ mid', Rebuilt (.table origin entries) (.table origin (rebuild mid')) made p
          (.table o mid')) →
        (∀ mid', (Item.table o mid').Sound → (Item.table origin (rebuild mid')).Sound) →
        (∀ change, Entries.at? made change (key :: path) origin entries =
          (Entries.at? made change path o mid).map rebuild) →
        Leads (Item.table origin entries).outline made p path a →
        ∃ o inner, Spot (.table origin entries) made a o inner ∧ (Item.table o inner).Sound ∧
          ∀ change inner', change o inner = some inner' → (Item.table o inner').Sound →
            ∃ entries', Entries.at? made change (key :: path) origin entries = some entries' ∧
              Rebuilt (.table origin entries) (.table origin entries') made a (.table o inner') ∧
              (Item.table origin entries').Sound := by
      intro p o mid rebuild hspot hmid hrebuilt hrebuild hat hrest
      obtain ⟨b, rfl, hb⟩ := @Leads.within _ _ made [] _ p path
        (by rwa [List.append_nil]) hspot.below
      obtain ⟨o', inner, hspot', hinner, hchange⟩ := ih hmid hb
      refine ⟨o', inner, hspot.trans hspot', hinner, fun change inner' h h' => ?_⟩
      obtain ⟨mid', hmid', hrebuilt', hsound'⟩ := hchange change inner' h h'
      exact ⟨rebuild mid', by rw [hat, hmid']; rfl, .trans hspot (hrebuilt mid') hrebuilt',
        hrebuild mid' hsound'⟩
    cases h with
    | missing hnone hrest =>
      have hlookup := Item.lookup_eq_none hnone
      refine hstep (spot_missing hlookup) .fresh (fun _ => rebuilt_key) (fun _ => hsound.set)
        (fun change => ?_) hrest
      simp only [Entries.at?, hlookup]
      cases Entries.at? made change path made [] <;> rfl
    | @table _ _ origin' _ _ htable hmade hrest =>
      obtain ⟨mid, hlookup⟩ := Item.lookup_table htable
      have hguard : (decide (made = .keys) && decide (origin' = .header)) = false := by
        simpa using hmade
      refine hstep (spot_table hlookup) (hsound.of_lookup hlookup) (fun _ => rebuilt_key)
        (fun _ => hsound.set) (fun change => ?_) hrest
      simp only [Entries.at?, hlookup, hguard]
      cases Entries.at? made change path origin' mid <;> rfl
    | @last _ _ count _ _ hlast hrest =>
      obtain ⟨elements, hlookup, hlength⟩ := Item.lookup_tables hlast
      -- The guard against an empty list of tables is met by the count.
      obtain ⟨others, mid, rfl⟩ := elements.eq_nil_or_concat'.resolve_left (by
        rintro rfl
        cases hlength)
      obtain rfl : others.length = count := by simpa using hlength
      obtain ⟨hothers, hmid⟩ := (hsound.of_lookup hlookup).of_append
      refine hstep (spot_last hlookup) hmid (fun _ => rebuilt_last hlookup)
        (fun _ h => hsound.set (hothers.append h)) (fun change => ?_) hrest
      simp only [Entries.at?, hlookup, List.getLast?_concat, List.dropLast_concat, bind,
        Option.bind, pure]
      cases Entries.at? made change path .header mid <;> rfl

end Change

end ActionUnits.Record.Toml
