import ActionUnits.Proofs.Synthesis
import ActionUnits.Record.Decode

/-! # Records given by data

What an object must say to give a record is told by its slots: the name of each
member, the data that give its field, and whether it may be left out. A schema
that follows the slots reads the record from every such object, whatever the order
of its members and whatever else they are. An object without a required member
gives no record.
-/

namespace ActionUnits.Record

/-! ## Data that give a value -/

def GivesText (text : String) (data : Data) : Prop :=
  data = .text (some text)

def GivesFlag (value : Bool) (data : Data) : Prop :=
  data = .flag value

/-- A text that is absent is given by `null`. -/
def GivesOptionalText : Option String → Data → Prop
  | some text, data => GivesText text data
  | none, data => data = .null

def GivesList {α : Type} (Gives : α → Data → Prop) (values : List α) (data : Data) : Prop :=
  ∃ elements, data = .list elements true ∧ List.Forall₂ Gives values elements

/-- A field of a record as an object gives it. -/
structure Slot where
  /-- The name of the member. -/
  key : String
  Gives : Data → Prop
  /-- The field has its default, so that the member may be left out. -/
  Omissible : Prop

/-- The members of an object give the fields of a record, in any order. Members of other names may
be among them. -/
structure GivesFields (slots : List Slot) (entries : List (Option String × Data)) : Prop where
  named : ∀ entry ∈ entries, entry.1 ≠ none
  given : ∀ slot ∈ slots, ∀ data, (some slot.key, data) ∈ entries → slot.Gives data
  once : ∀ slot ∈ slots, (entries.map Prod.fst).count (some slot.key) ≤ 1
  omitted : ∀ slot ∈ slots, some slot.key ∉ entries.map Prod.fst → slot.Omissible

/-- An object gives a record; what else it holds does not matter. -/
def GivesRecord (slots : List Slot) (data : Data) : Prop :=
  ∃ entries, data = .members entries true ∧ GivesFields slots entries

theorem asText_of_gives {text : String} {data : Data} (h : GivesText text data) :
    data.asText = .ok text := by
  subst h
  rfl

theorem asFlag_of_gives {value : Bool} {data : Data} (h : GivesFlag value data) :
    data.asFlag = .ok value := by
  subst h
  rfl

theorem asOptionalText_of_gives {text : Option String} {data : Data}
    (h : GivesOptionalText text data) : data.asOptionalText = .ok text := by
  cases text with
  | none =>
    obtain rfl : data = .null := h
    rfl
  | some text =>
    obtain rfl : data = .text (some text) := h
    rfl

/-! ### Whole data -/

theorem allWhole_iff {elements : List Data} :
    Data.allWhole elements = true ↔ ∀ element ∈ elements, element.isWhole = true := by
  induction elements with
  | nil => simp [Data.allWhole]
  | cons element elements ih => simp [Data.allWhole, ih]

theorem entriesWhole_iff {entries : List (Option String × Data)} :
    Data.entriesWhole entries = true ↔ ∀ entry ∈ entries, entry.2.isWhole = true := by
  induction entries with
  | nil => simp [Data.entriesWhole]
  | cons entry entries ih => simp [Data.entriesWhole, ih]

/-- A list is whole if its elements are. -/
theorem isWhole_list_iff {elements : List Data} :
    (Data.list elements true).isWhole = true ↔ ∀ element ∈ elements, element.isWhole = true := by
  rw [Data.isWhole, Bool.true_and, allWhole_iff]

/-- An object is whole if its members are. -/
theorem isWhole_members_iff {entries : List (Option String × Data)} :
    (Data.members entries true).isWhole = true ↔ ∀ entry ∈ entries, entry.2.isWhole = true := by
  rw [Data.isWhole, Bool.true_and, entriesWhole_iff]

/-- A list that gives values is read as them, element by element. -/
theorem asList_of_gives {α : Type} {Gives : α → Data → Prop} {element : Data → Decoded α}
    {values : List α} {data : Data} (h : GivesList Gives values data) (hwhole : data.isWhole = true)
    (helement : ∀ value data, Gives value data → data.isWhole = true → element data = .ok value) :
    data.asList element = .ok values := by
  obtain ⟨elements, rfl, hvalues⟩ := h
  have hboth := (List.forall₂_and_left elements values).mpr
    ⟨isWhole_list_iff.mp hwhole, hvalues.flip⟩
  have hread : elements.mapM element = .ok values :=
    mapM_eq_ok_iff.mpr (hboth.imp fun data value h => helement value data h.2 h.1)
  simp only [Data.asList, hread]
  rfl

theorem asTexts_of_gives {texts : List String} {data : Data}
    (h : GivesList GivesText texts data) (hwhole : data.isWhole = true) :
    data.asTexts = .ok texts :=
  asList_of_gives h hwhole fun _ _ htext _ => asText_of_gives htext

/-! ## Reading a record -/

section Schema

variable {δ ρ : Type}

/-- Takes one more member of an object. -/
def Schema.take (schema : Schema δ ρ) (draft : δ) (entry : Option String × Data) : Decoded δ :=
  match entry.1 with
  | some key => schema.put draft key entry.2
  | none => throw .malformed

/-- What is known of a record after members of some names, as a schema keeps it. -/
structure Schema.Follows (schema : Schema δ ρ) (slots : List Slot) (record : ρ)
    (draft : List String → δ) : Prop where
  empty : schema.empty = draft []
  put_slot : ∀ slot ∈ slots, ∀ seen data, slot.key ∉ seen → slot.Gives data →
    data.isWhole = true → schema.put (draft seen) slot.key data = .ok (draft (slot.key :: seen))
  put_other : ∀ key seen data, (∀ slot ∈ slots, slot.key ≠ key) → data.isWhole = true →
    schema.put (draft seen) key data = .ok (draft (key :: seen))
  finish : ∀ seen, (∀ slot ∈ slots, slot.key ∉ seen → slot.Omissible) →
    schema.finish .missingField (draft seen) = .ok record

variable {schema : Schema δ ρ} {slots : List Slot} {record : ρ} {draft : List String → δ}

/-- Members that are taken one after the other leave what is known after all of them. -/
theorem Schema.Follows.foldlM (h : schema.Follows slots record draft)
    {entries : List (Option String × Data)} (hentries : GivesFields slots entries)
    (hwhole : ∀ entry ∈ entries, entry.2.isWhole = true)
    {before after : List (Option String × Data)} (hsplit : before ++ after = entries) :
    ∃ seen, after.foldlM schema.take (draft (before.filterMap Prod.fst).reverse) =
      .ok (draft seen) ∧ ∀ key, key ∈ seen ↔ some key ∈ entries.map Prod.fst := by
  induction after generalizing before with
  | nil =>
    refine ⟨_, rfl, fun key => ?_⟩
    rw [List.append_nil] at hsplit
    rw [List.mem_reverse, ← hsplit]
    simp
  | cons entry after ih =>
    obtain ⟨name, data⟩ := entry
    have hmem : (name, data) ∈ entries := hsplit ▸ List.mem_append_right _ List.mem_cons_self
    cases name with
    | none => exact absurd rfl (hentries.named _ hmem)
    | some key =>
      obtain ⟨seen, hfold, hseen⟩ := @ih (before ++ [(some key, data)])
        (by rw [List.append_assoc]; exact hsplit)
      -- A member of a field is the first of its name, as the name occurs once among all members.
      have hput : schema.put (draft (before.filterMap Prod.fst).reverse) key data =
          .ok (draft (key :: (before.filterMap Prod.fst).reverse)) := by
        by_cases hknown : ∃ slot ∈ slots, slot.key = key
        · obtain ⟨slot, hslot, rfl⟩ := hknown
          refine h.put_slot slot hslot _ data (fun hbefore => ?_)
            (hentries.given slot hslot data hmem) (hwhole _ hmem)
          have hfirst : 0 < (before.map Prod.fst).count (some slot.key) := by
            rw [List.count_pos_iff]
            simpa using hbefore
          have hcount := hentries.once slot hslot
          rw [← hsplit, List.map_append, List.count_append, List.map_cons,
            List.count_cons_self] at hcount
          omega
        · exact h.put_other key _ data (fun slot hslot heq => hknown ⟨slot, hslot, heq⟩)
            (hwhole _ hmem)
      have hseen' : (((before ++ [(some key, data)]).filterMap Prod.fst).reverse : List String) =
          key :: (before.filterMap Prod.fst).reverse := by simp
      rw [hseen'] at hfold
      refine ⟨seen, ?_, hseen⟩
      rw [List.foldlM_cons]
      change (schema.put _ key data >>= fun next => after.foldlM schema.take next) = _
      rw [hput]
      exact hfold

/-- A schema reads a record from every object that gives it. -/
theorem Schema.Follows.asRecord (h : schema.Follows slots record draft) (exact : Bool) {data : Data}
    (hdata : GivesRecord slots data) (hwhole : data.isWhole = true) :
    data.asRecord exact schema = .ok record := by
  obtain ⟨entries, rfl, hentries⟩ := hdata
  obtain ⟨seen, hfold, hseen⟩ :=
    h.foldlM hentries (isWhole_members_iff.mp hwhole) (List.nil_append entries)
  have hfinish : schema.finish .missingField (draft seen) = .ok record :=
    h.finish seen fun slot hslot hkey =>
      hentries.omitted slot hslot fun hmem => hkey ((hseen slot.key).mpr hmem)
  change (entries.foldlM schema.take schema.empty >>= fun draft =>
    schema.finish .missingField draft) = _
  change entries.foldlM schema.take (draft []) = .ok (draft seen) at hfold
  rw [h.empty, hfold]
  exact hfinish

/-! ### What a record was read from -/

/-- In a fold that succeeds, every step has. -/
theorem foldlM_eq_ok {α : Type} {f : δ → α → Decoded δ} {as : List α} {start result : δ}
    (h : as.foldlM f start = .ok result) (a : α) (ha : a ∈ as) :
    ∃ before after, f before a = .ok after := by
  induction as generalizing start with
  | nil => cases ha
  | cons first as ih =>
    rw [List.foldlM_cons] at h
    obtain ⟨next, hfirst, hrest⟩ := bind_eq_ok_iff.mp h
    rcases List.mem_cons.mp ha with rfl | ha
    · exact ⟨start, next, hfirst⟩
    · exact ih hrest ha

/-- A member of an object, or an element of a list in the place of a field. -/
def Data.HasMember (data : Data) (keys : List String) (key : String) (value : Data) : Prop :=
  match data with
  | .members entries _ => (some key, value) ∈ entries
  | .list elements _ => (key, value) ∈ keys.zip elements
  | _ => False

/-- Each member of a record has been taken. -/
theorem put_of_asRecord {exact : Bool} {data value : Data} {key : String}
    (h : data.asRecord exact schema = .ok record) (hmember : data.HasMember schema.keys key value) :
    ∃ before after, schema.put before key value = .ok after := by
  cases data with
  | members entries closed =>
    obtain ⟨last, hfold, -⟩ := bind_eq_ok_iff.mp h
    exact foldlM_eq_ok hfold (some key, value) hmember
  | list elements closed =>
    obtain ⟨last, hfold, -⟩ := bind_eq_ok_iff.mp h
    exact foldlM_eq_ok hfold (key, value) hmember
  | _ => cases hmember

/-- A schema wants a member: only that member makes known what the end asks for. -/
structure Schema.Requires (schema : Schema δ ρ) (key : String) (Known : δ → Prop) : Prop where
  empty : ¬ Known schema.empty
  put : ∀ before other value after, schema.put before other value = .ok after → Known after →
    Known before ∨ other = key
  finish : ∀ missing draft record, schema.finish missing draft = .ok record → Known draft

/-- What is known after the members of an object was known before, or one of them made it known. -/
theorem Schema.Requires.foldlM {key : String} {Known : δ → Prop}
    (h : schema.Requires key Known) {entries : List (Option String × Data)} {first last : δ}
    (hfold : entries.foldlM schema.take first = .ok last) (hlast : Known last) :
    Known first ∨ some key ∈ entries.map Prod.fst := by
  induction entries generalizing first with
  | nil =>
    cases hfold
    exact .inl hlast
  | cons entry entries ih =>
    obtain ⟨name, value⟩ := entry
    rw [List.foldlM_cons] at hfold
    obtain ⟨next, htake, hrest⟩ := bind_eq_ok_iff.mp hfold
    -- What is known at the end was known before this member, or one of the members is the one.
    rcases ih hrest with hnext | hmem
    · cases name with
      | none => cases htake
      | some other =>
        rcases h.put first other value next htake hnext with hfirst | rfl
        · exact .inl hfirst
        · exact .inr List.mem_cons_self
    · exact .inr (List.mem_cons_of_mem _ hmem)

/-- An object without a member. -/
def Data.Lacks (data : Data) (key : String) : Prop :=
  ∃ entries closed, data = .members entries closed ∧ some key ∉ entries.map Prod.fst

/-- A record is not read from an object without a required member. -/
theorem Schema.Requires.not_lacks {key : String} {Known : δ → Prop} (h : schema.Requires key Known)
    {exact : Bool} {data : Data} (hrecord : data.asRecord exact schema = .ok record) :
    ¬ data.Lacks key := by
  rintro ⟨entries, closed, rfl, hkey⟩
  obtain ⟨last, hfold, hlast⟩ := bind_eq_ok_iff.mp hrecord
  cases closed with
  | false => cases hlast
  | true =>
    rcases h.foldlM hfold (h.finish _ _ _ hlast) with hempty | hmem
    · exact h.empty hempty
    · exact hkey hmem

end Schema

def Data.Within (data : Data) (keys : List String) (key : String) (P : Data → Prop) : Prop :=
  ∃ elements closed, data.HasMember keys key (.list elements closed) ∧ ∃ element ∈ elements, P element

/-- Every element of a list that is read has been read. -/
theorem asList_eq_ok {α : Type} {element : Data → Decoded α} {elements : List Data} {closed : Bool}
    {values : List α} (h : (Data.list elements closed).asList element = .ok values)
    {data : Data} (hdata : data ∈ elements) : ∃ value, element data = .ok value := by
  obtain ⟨read, hread, -⟩ := bind_eq_ok_iff.mp h
  obtain ⟨value, -, hvalue⟩ := forall₂_mem_right (mapM_eq_ok_iff.mp hread).flip hdata
  exact ⟨value, hvalue⟩

theorem once_eq_ok {α : Type} {known : Option α} {key : String} {value : Decoded α}
    {result : Option α} (h : once known key value = .ok result) : ∃ x, value = .ok x := by
  cases known with
  | some _ => cases h
  | none =>
    cases value with
    | error fault => cases h
    | ok x => exact ⟨x, rfl⟩

theorem required_eq_ok {α : Type} {missing : String → RecordFault} {key : String}
    {known : Option α} {value : α} (h : required missing key known = .ok value) :
    known.isSome = true := by
  cases known with
  | none => cases h
  | some _ => rfl

/-- A member of another name is passed over, but it must be whole. -/
theorem passOver_eq_ok {δ : Type} {draft result : δ} {data : Data} :
    passOver draft data = .ok result ↔ data.isWhole = true ∧ result = draft := by
  cases hwhole : data.isWhole with
  | false => simp [passOver, hwhole]
  | true =>
    rw [passOver, if_pos hwhole]
    exact ⟨fun h => ⟨rfl, (Except.ok.inj h).symm⟩, fun h => congrArg _ h.2.symm⟩

/-- If a schema reads a list under a key, no element of it is one that cannot be read. -/
theorem not_within {δ ρ α : Type} {schema : Schema δ ρ} {record : ρ} {exact : Bool} {data : Data}
    {key : String} {P : Data → Prop} (element : Data → Decoded α)
    (h : data.asRecord exact schema = .ok record)
    (hput : ∀ before value after, schema.put before key value = .ok after →
      ∃ values, value.asList element = .ok values)
    (helement : ∀ data value, element data = .ok value → ¬ P data) :
    ¬ data.Within schema.keys key P := by
  rintro ⟨elements, closed, hmember, inner, hinner, hP⟩
  obtain ⟨before, after, htaken⟩ := put_of_asRecord h hmember
  obtain ⟨values, hvalues⟩ := hput before _ after htaken
  obtain ⟨value, hvalue⟩ := asList_eq_ok hvalues hinner
  exact helement inner value hvalue hP

end ActionUnits.Record
