import ActionUnits.Load
import ActionUnits.Proofs.Files.Writing
import ActionUnits.Proofs.Generation
import ActionUnits.Proofs.Record.Fields
import ActionUnits.Proofs.Record.Json
import ActionUnits.Proofs.Record.Toml.Document

/-! # Loading records

A file whose text denotes data that give a record is loaded as that record, in
either format. A file whose data lack a required member is refused.
-/

namespace ActionUnits

open Record

namespace ConfigFormat

/-- The data of a text. In TOML, a key or header has at most so many segments, and in a value at
most so many collections stand inside each other. -/
def Denotes (segments depth : Nat) (text : String) (data : Data) : ConfigFormat → Prop
  | .json => Json.Denotes text data
  | .toml => Toml.Denotes segments depth text data

/-- A format has room for so many segments and collections; TOML has a limit to both. -/
def HasRoom (segments depth : Nat) : ConfigFormat → Prop
  | .json => True
  | .toml => segments ≤ Toml.depthLimit ∧ depth ≤ Toml.depthLimit

/-- The error for a file from which no record is read. -/
def invalid (path : String) (fault : RecordFault) : ConfigFormat → Error
  | .json => .invalidJson path fault
  | .toml => .invalidToml path fault

end ConfigFormat

namespace Record

variable {δ ρ : Type} {schema : Bool → Schema δ ρ} {format : ConfigFormat}
  {segments depth : Nat} {path text : String} {data : Data}

/-- A record is read from a text whose data give it. -/
theorem ofText_of_denotes {slots : List Slot} {record : ρ} {draft : List String → δ}
    (hschema : ∀ exact, (schema exact).Follows slots record draft)
    (hdata : format.Denotes segments depth text data) (hroom : format.HasRoom segments depth)
    (hgives : GivesRecord slots data) : ofText schema format path text = .ok record := by
  cases format with
  | json =>
    have hrecord := (hschema true).asRecord true hgives (Json.isWhole_of_denotes hdata)
    have hread : ofJson (schema true) text = .ok record := by
      simp only [ofJson, Json.read_of_denotes hdata, hrecord]
      rfl
    rw [ofText, hread]
    rfl
  | toml =>
    have hrecord := (hschema false).asRecord false hgives (Toml.isWhole_of_denotes hdata)
    have hread : ofToml (schema false) text = .ok record := by
      rcases Toml.read?_of_denotes hdata with hread | ⟨hnone, -⟩
      · simp only [ofToml, hread, hrecord]
      · exact absurd hroom hnone
    rw [ofText, hread]
    rfl

/-- No record is read from a text whose data give none. -/
theorem ofText_of_not_asRecord (hdata : format.Denotes segments depth text data)
    (hschema : ∀ exact record, data.asRecord exact (schema exact) ≠ .ok record) :
    ∃ fault, ofText schema format path text = .error (format.invalid path fault) := by
  have hfault : ∀ exact, ∃ fault, data.asRecord exact (schema exact) = .error fault := by
    intro exact
    cases h : data.asRecord exact (schema exact) with
    | error fault => exact ⟨fault, rfl⟩
    | ok record => exact absurd h (hschema exact record)
  cases format with
  | json =>
    obtain ⟨fault, hfault⟩ := hfault true
    have hread : ofJson (schema true) text = .error fault := by
      simp only [ofJson, Json.read_of_denotes hdata, hfault]
      rfl
    exact ⟨fault, by rw [ofText, hread]; rfl⟩
  | toml =>
    rcases Toml.read?_of_denotes hdata with hread | ⟨-, hread⟩
    · obtain ⟨fault, hfault⟩ := hfault false
      have hread : ofToml (schema false) text = .error fault := by
        simp only [ofToml, hread, hfault]
      exact ⟨fault, by rw [ofText, hread]; rfl⟩
    · have hread : ofToml (schema false) text = .error .malformed := by
        simp only [ofToml, hread]
      exact ⟨.malformed, by rw [ofText, hread]; rfl⟩

end Record

namespace FileSystem

variable {fs : FileSystem} {path : FilePath} {format : ConfigFormat} {text : String}

/-- A file that is there is read in the format that its name tells. -/
theorem loadRecord_eq {δ ρ : Type} (schema : Bool → Schema δ ρ)
    (hformat : ConfigFormat.ofPath path = .ok format) (htext : fs.read path = .ok text) :
    fs.loadRecord schema path = ofText schema format path.text text := by
  rw [loadRecord, hformat, htext]
  rfl

theorem loadActions_result (hformat : ConfigFormat.ofPath path = .ok format)
    (htext : fs.read path = .ok text) :
    (fs.loadActions path).result = ofText setSchema format path.text text := by
  rw [← loadRecord_eq setSchema hformat htext, loadActions, Logged.result_bind,
    Logged.result_ofExcept]
  cases fs.loadRecord setSchema path <;> rfl

theorem loadModule_result (hformat : ConfigFormat.ofPath path = .ok format)
    (htext : fs.read path = .ok text) :
    (fs.loadModule path).result = ofText moduleSchema format path.text text := by
  rw [← loadRecord_eq moduleSchema hformat htext, loadModule, Logged.result_bind,
    Logged.result_ofExcept]
  cases fs.loadRecord moduleSchema path <;> rfl

def oneFile (name text : String) : FileSystem :=
  ⟨[(name, .file text.toUTF8)], [], []⟩

theorem read_oneFile {name text : String}
    (hfollow : (oneFile name text).follow ⟨name⟩ (FilePath.mk name).parts = .ok [name]) :
    (oneFile name text).read ⟨name⟩ = .ok text := by
  refine (read_of_hasFile hfollow ?_).2
  simp [FileTree.HasFile, FileTree.get?, oneFile]

/-! ### Files whose members stand in another order -/

section

open Json

/-- Characters that stand for themselves between quotes. -/
def IsPlainText (text : String) : Prop :=
  ∀ c ∈ text.toList, 0x20 ≤ c.toNat ∧ c ≠ '"' ∧ c ≠ '\\'

instance (text : String) : Decidable (IsPlainText text) :=
  inferInstanceAs (Decidable (∀ c ∈ text.toList, _))

/-- A member with a name that needs no escape, in front of others. -/
theorem derives_member (key : String) (hkey : IsPlainText key) {data : Data}
    {cs more rest : List Char} {entries : List (Option String × Data)}
    (hdata : Derives (.value data) cs (',' :: more)) (hmore : Derives (.members entries) more rest) :
    Derives (.members ((some key, data) :: entries)) ('"' :: (key.toList ++ '"' :: ':' :: cs))
      rest :=
  .member .none (units_plain _ hkey) (denoteText_plain key) .none .none hdata .none hmore

/-- A member with a name that needs no escape, at the end of an object. -/
theorem derives_lastMember (key : String) (hkey : IsPlainText key) {data : Data}
    {cs rest : List Char} (hdata : Derives (.value data) cs ('\x7d' :: rest)) :
    Derives (.members [(some key, data)]) ('"' :: (key.toList ++ '"' :: ':' :: cs)) rest :=
  .lastMember .none (units_plain _ hkey) (denoteText_plain key) .none .none hdata .none

/-- A text that needs no escape is a value. -/
theorem derives_text (text : String) (htext : IsPlainText text) (rest : List Char) :
    Derives (.value (.text (some text))) ('"' :: (text.toList ++ '"' :: rest)) rest :=
  .text (units_plain _ htext) (denoteText_plain text)

end

/-- The fields of the action are told in another order than that of the record, one of them by an
escape and two by their defaults, and there is a member of another name. -/
def reorderedText : String :=
  "\x7b\"x\":[null],\"definitions\":[\x7b\"expr\":\"\\u0061\",\"is_multi_out\":false," ++
    "\"description\":null,\"id\":\"b\"\x7d]\x7d"

/-- What the text says of the one action in it. -/
def reorderedMembers : List (Option String × Data) :=
  [(some "expr", .text (some "a")), (some "is_multi_out", .flag false),
    (some "description", .null), (some "id", .text (some "b"))]

def reorderedData : Data :=
  .members [(some "x", .list [.null] true),
    (some "definitions", .list [.members reorderedMembers true] true)] true

def reorderedSet : ActionSet :=
  ⟨[{ id := "b", expr := "a" }], []⟩

theorem denotes_reorderedText : Json.Denotes reorderedText reorderedData := by
  have hcode : Json.IsCode '0' '0' '6' '1' 0x61 :=
    ⟨0, 0, 6, 1, ⟨by decide, .inl rfl⟩, ⟨by decide, .inl rfl⟩, ⟨by decide, .inl rfl⟩,
      ⟨by decide, .inl rfl⟩, rfl⟩
  have hexpr : Json.DenoteText [.code 0x61] (some "a") := .some (.code (by decide) .nil)
  have haction : ∀ rest, Json.Derives (.members reorderedMembers)
      ("\"expr\":\"\\u0061\",\"is_multi_out\":false,\"description\":null,\"id\":\"b\"\x7d".toList ++
        rest) rest := fun rest =>
    derives_member "expr" (by decide) (.text (.code hcode .close) hexpr)
      (derives_member "is_multi_out" (by decide) .no
        (derives_member "description" (by decide) .null
          (derives_lastMember "id" (by decide) (derives_text "b" (by decide) _))))
  exact ⟨_, _, .none, .object
    (derives_member "x" (by decide) (.list (.lastElement .none .null .none))
      (derives_lastMember "definitions" (by decide)
        (.list (.lastElement .none (.object (haction _)) .none)))), .none⟩

/-- Neither the order of the members nor the further one matters. -/
theorem givesRecord_reorderedData : GivesRecord reorderedSet.slots reorderedData := by
  have haction : GivesRecord (Action.slots ⟨"b", "a", [], false, none⟩)
      (.members reorderedMembers true) := by
    refine ⟨_, rfl, ?_, ?_, ?_, ?_⟩ <;>
      simp [reorderedMembers, Action.slots, GivesText, GivesFlag, GivesOptionalText]
  refine ⟨_, rfl, ?_, ?_, ?_, ?_⟩
  · simp
  · intro slot hslot data hdata
    simp only [ActionSet.slots, List.mem_cons, List.not_mem_nil, or_false] at hslot hdata
    rcases hslot with rfl | rfl
    · obtain rfl : data = _ := (Prod.mk.inj (hdata.resolve_left (by simp))).2
      exact ⟨_, rfl, .cons haction .nil⟩
    · simp at hdata
  · simp [ActionSet.slots]
  · simp [ActionSet.slots, reorderedSet]

/-- A module without imports and bindings, with its package first. -/
def moduleText : String :=
  "\x7b\"package\":\"p\",\"dataset_type\":\"D\"\x7d"

def moduleData : Data :=
  .members [(some "package", .text (some "p")), (some "dataset_type", .text (some "D"))] true

theorem denotes_moduleText : Json.Denotes moduleText moduleData :=
  ⟨_, _, .none, .object (derives_member "package" (by decide) (derives_text "p" (by decide) _)
    (derives_lastMember "dataset_type" (by decide) (derives_text "D" (by decide) _))), .none⟩

theorem givesRecord_moduleData : GivesRecord (ModuleDef.slots ⟨"D", "p", [], []⟩) moduleData := by
  refine ⟨_, rfl, ?_, ?_, ?_, ?_⟩ <;> simp [ModuleDef.slots, GivesText]

/-- A module without its dataset type. -/
def partialText : String :=
  "\x7b\"package\":\"p\"\x7d"

def partialData : Data :=
  .members [(some "package", .text (some "p"))] true

theorem denotes_partialText : Json.Denotes partialText partialData :=
  ⟨_, _, .none, .object (derives_lastMember "package" (by decide)
    (derives_text "p" (by decide) _)), .none⟩

theorem incompleteModule_partialData : IncompleteModule partialData :=
  .inl ⟨_, _, rfl, by simp⟩

/-! ### Files with lists inside each other, or with a key of many segments -/

/-- Data beside an action set without actions. -/
def besideData (data : Data) : Data :=
  .members [(some "definitions", .list [] true), (some "x", data)] true

/-- A line in front of an action set without actions. -/
def besideText (line : List Char) : String :=
  String.ofList (line ++ "\ndefinitions = []".toList)

theorem givesRecord_besideData (data : Data) :
    GivesRecord ActionSet.empty.slots (besideData data) := by
  refine ⟨_, rfl, ?_, ?_, ?_, ?_⟩
  · simp
  · simp [ActionSet.slots, ActionSet.empty, GivesList]
  · simp [ActionSet.slots]
  · simp [ActionSet.slots, ActionSet.empty]

/-- A list that has so many lists inside each other in it. -/
def nestedLists : Nat → Data
  | 0 => .list [] true
  | n + 1 => .list [nestedLists n] true

/-- The characters of so many lists. -/
def nestedChars (n : Nat) : List Char :=
  List.replicate n '[' ++ List.replicate n ']'

/-- A member of another name, with one list more than the number says. -/
def nestedText (n : Nat) : String :=
  besideText ("x".toList ++ (" = ".toList ++ nestedChars (n + 1)))

/-- An empty list under so many keys. -/
def dottedTables : Nat → Data
  | 0 => .list [] true
  | n + 1 => .members [(some "x", dottedTables n)] true

/-- A key with one segment more than the number says. -/
def dottedKey : Nat → List Char
  | 0 => ['x']
  | n + 1 => 'x' :: '.' :: dottedKey n

/-- An empty list under a key of another name. -/
def dottedText (n : Nat) : String :=
  besideText (dottedKey n ++ " = []".toList)

section

open Toml

/-- A single key without quotes. -/
theorem keys_bare {key : String} (rest : List Char) (hne : key.toList ≠ [])
    (hbare : ∀ c ∈ key.toList, isBare c = true) : Keys (key.toList ++ rest) [key] rest := by
  have hkey := Key.bare (bare_append rest hne hbare)
  rw [String.ofList_toList] at hkey
  exact .last .none hkey

theorem spaces_equals (cs : List Char) : Spaces (" = ".toList ++ cs) ('=' :: ' ' :: cs) :=
  .more (.inl rfl) .none

/-- A line with a key and a value. -/
theorem says_entry {m n : Nat} {path : List String} {data : Data} {cs value rest : List Char}
    (hkeys : Keys cs path (" = ".toList ++ value)) (hpath : path.length ≤ m)
    (hdata : Derives m n (.value data) value rest) : Says m n (.entry path data) cs rest :=
  .entry hkeys hpath (spaces_equals value) (.more (.inl rfl) .none) hdata

/-- The two lines of such a text. -/
theorem besideText_chars {line : List Char} (hline : line.head? = some 'x') :
    dropByteOrderMark (besideText line).toList =
      line ++ '\n' :: ("definitions".toList ++ (" = ".toList ++ "[]".toList)) := by
  rw [besideText, String.toList_ofList, dropByteOrderMark]
  · rfl
  · intro cs hcs
    have hhead : (line ++ "\ndefinitions = []".toList).head? = some 'x' := by
      rw [List.head?_append, hline]
      rfl
    rw [hcs] at hhead
    exact absurd hhead (by simp)

/-- What the two lines of such a text draw. -/
theorem drawAll_beside {path : List String} {key : String} {data : Data} {a : Address}
    (hleads : Leads Sketch.empty.outline .keys [] path a)
    (hpath : path ≠ [] → Sketch.empty.outline a = none)
    (hkey : Sketch.empty.outline (a ++ [Step.key key]) = none)
    (hother : ¬ [Step.key "definitions"] <+: a ++ [Step.key key]) :
    DrawAll .empty [.entry (path ++ [key]) data, .entry ["definitions"] (.list [] true)]
      ⟨[], (Sketch.empty.outline.add .keys (a ++ [Step.key key]) (.value data)).add .keys
        [Step.key "definitions"] (.value (.list [] true))⟩ := by
  refine .cons (.entry hleads (fun hne => by simp [hpath hne]) hkey) (.cons ?_ .nil)
  refine @Draws.entry _ [] "definitions" [] _ .here (fun h => absurd rfl h) ?_
  exact Outline.add_of_not_isPrefix hother

/-- Such a text denotes what its two lines draw. -/
theorem denotes_besideText {m n : Nat} {line : List Char} {path : List String} {data data' : Data}
    {last : Sketch} (hline : line.head? = some 'x') (hm : 0 < m)
    (hcontent : ∀ rest, Says m (n + 1) (.entry path data) (line ++ rest) rest)
    (hdraw : DrawAll .empty [.entry path data, .entry ["definitions"] (.list [] true)] last)
    (hholds : Holds last.outline [] data') : Toml.Denotes m (n + 1) (besideText line) data' := by
  refine ⟨_, last, ?_, hdraw, hholds⟩
  rw [besideText_chars hline]
  refine .more .none (hcontent _) .none .none .feed (.last .none ?_ .none .none)
  exact says_entry (keys_bare _ (by decide) (by decide)) hm (.list (.noElements .none))

/-- Data is held where something stands. -/
theorem holds_ne_none {outline : Outline} {a : Address} {data : Data} (h : Holds outline a data) :
    outline a ≠ none := by
  cases h with
  | value hlook => simp [hlook]
  | table hlook _ _ _ => simp [hlook]
  | tables hlook _ => simp [hlook]

/-- Data stands beside an action set without actions. -/
theorem holds_beside {outline : Outline} {data : Data} (hroot : outline [] = some (.table .header))
    (hdefinitions : outline [Step.key "definitions"] = some (.value (.list [] true)))
    (hx : Holds outline [Step.key "x"] data)
    (hother : ∀ key, key ≠ "definitions" → key ≠ "x" → outline [Step.key key] = none) :
    Holds outline [] (besideData data) := by
  refine @Holds.table _ [] .header [("definitions", .list [] true), ("x", data)] hroot ?_ ?_
    fun member hmember => ?_
  · have hlt : "definitions" < "x" := by decide
    exact List.pairwise_pair.mpr hlt
  · intro key
    by_cases hkey : key = "x" <;> by_cases hkey' : key = "definitions" <;>
      simp_all [holds_ne_none hx]
  · simp only [List.mem_cons, List.not_mem_nil, or_false] at hmember
    rcases hmember with rfl | rfl
    · exact .value hdefinitions
    · exact hx

/-- A text whose first line is not read is not read. -/
theorem read?_besideText {line : List Char} (hline : line.head? = some 'x')
    (h : ∀ rest, line? ((line ++ rest).dropWhile isSpace) = none) :
    read? (besideText line) = none := by
  simp only [read?, besideText_chars hline, linesTo, h]
  rfl

theorem derives_nestedLists {m : Nat} (n : Nat) (rest : List Char) :
    Derives m (n + 1) (.value (nestedLists n)) (nestedChars (n + 1) ++ rest) rest := by
  induction n generalizing rest with
  | zero => exact .list (.noElements .none)
  | succ n ih =>
    have hchars : nestedChars (n + 2) ++ rest = '[' :: (nestedChars (n + 1) ++ ']' :: rest) := by
      have hopen : List.replicate (n + 2) '[' = '[' :: List.replicate (n + 1) '[' := rfl
      have hclose : List.replicate (n + 2) ']' = List.replicate (n + 1) ']' ++ [']'] :=
        List.replicate_succ'
      rw [nestedChars, hopen, hclose, nestedChars]
      simp only [List.cons_append, List.append_assoc, List.nil_append]
    rw [hchars]
    exact .list (.lastElement .none (ih _) .none)

theorem denotes_nestedText (n : Nat) :
    Toml.Denotes 1 (n + 1) (nestedText n) (besideData (nestedLists n)) := by
  refine denotes_besideText rfl Nat.one_pos (fun rest => ?_)
    (@drawAll_beside [] "x" _ [] .here (fun h => absurd rfl h) rfl (by decide))
    (holds_beside rfl rfl (.value rfl) fun key hdefinitions hx => ?_)
  · simp only [List.append_assoc]
    exact says_entry (keys_bare _ (by decide) (by decide)) (Nat.le_refl 1)
      (derives_nestedLists n rest)
  · simp [Outline.add, Sketch.empty, hx, hdefinitions]

/-- Lists beyond the limit are not read. -/
theorem read?_nestedText {n : Nat} (h : depthLimit ≤ n) : read? (nestedText n) = none := by
  refine read?_besideText rfl fun rest => ?_
  have hvalue : value? (nestedChars (n + 1) ++ rest) = none := by
    rw [nestedChars, List.append_assoc]
    exact valueTo_deep _ _ (by rwa [Nat.zero_add])
  simp only [List.append_assoc]
  have hkeys : Keys ("x".toList ++ (" = ".toList ++ (nestedChars (n + 1) ++ rest))) ["x"] _ :=
    keys_bare _ (by decide) (by decide)
  obtain ⟨cs, -, hline⟩ :=
    line?_entry hkeys (spaces_equals _) (.more (.inl rfl) .none) ⟨'[', _, rfl, by decide⟩
  rw [hline, hvalue]
  cases keys? cs <;> rfl

/-- A long key has its segments. -/
theorem keys_dottedKey (n : Nat) (rest : List Char) :
    Keys (dottedKey n ++ ' ' :: rest) (List.replicate (n + 1) "x") (' ' :: rest) := by
  induction n with
  | zero => exact @keys_bare "x" _ (by decide) (by decide)
  | succ n ih => exact .more .none (.bare (.last (by decide))) .none ih

/-- The data at an address from which the same key leads on to an empty list. -/
theorem holds_dottedTables {outline : Outline} (n : Nat) (a : Address)
    (hlast : outline (a ++ List.replicate n (Step.key "x")) = some (.value (.list [] true)))
    (htable : ∀ k < n, outline (a ++ List.replicate k (Step.key "x")) = some (.table .keys))
    (hother : ∀ k < n, ∀ key ≠ "x",
      outline (a ++ List.replicate k (Step.key "x") ++ [Step.key key]) = none) :
    Holds outline a (dottedTables n) := by
  induction n generalizing a with
  | zero =>
    rw [List.replicate_zero, List.append_nil] at hlast
    exact .value hlast
  | succ n ih =>
    have hmove : ∀ k, a ++ [Step.key "x"] ++ List.replicate k (Step.key "x") =
        a ++ List.replicate (k + 1) (Step.key "x") := by
      intro k
      rw [List.append_assoc, List.singleton_append, List.replicate_succ]
    have hinner : Holds outline (a ++ [Step.key "x"]) (dottedTables n) := by
      refine ih _ (by rwa [hmove]) (fun k hk => ?_) fun k hk key hkey => ?_
      · rw [hmove]
        exact htable (k + 1) (Nat.succ_lt_succ hk)
      · rw [hmove]
        exact hother (k + 1) (Nat.succ_lt_succ hk) key hkey
    have hroot := htable 0 n.succ_pos
    have hnone := hother 0 n.succ_pos
    rw [List.replicate_zero, List.append_nil] at hroot hnone
    refine @Holds.table _ a .keys [("x", dottedTables n)] hroot (List.pairwise_singleton _ _) ?_ ?_
    · intro key
      by_cases hkey : key = "x"
      · simp [hkey, holds_ne_none hinner]
      · simp [hkey, hnone key hkey]
    · intro member hmember
      rw [List.mem_singleton.mp hmember]
      exact hinner

/-- The outline that the two lines of a text with a long key draw. -/
def dottedOutline (n : Nat) : Outline :=
  (Sketch.empty.outline.add .keys (List.replicate (n + 1) (Step.key "x"))
    (.value (.list [] true))).add .keys [Step.key "definitions"] (.value (.list [] true))

theorem dottedOutline_eq (n : Nat) {b : Address} (hb : b ≠ [])
    (hdefinitions : ¬ b <+: [Step.key "definitions"]) :
    dottedOutline n b =
      if b = List.replicate (n + 1) (Step.key "x") then some (.value (.list [] true))
      else if b <+: List.replicate (n + 1) (Step.key "x") then some (.table .keys) else none := by
  rw [dottedOutline, Outline.add_of_not_isPrefix hdefinitions, Outline.add]
  simp [Sketch.empty, hb]

/-- The outline of a long key holds tables inside each other. -/
theorem holds_dottedOutline (n : Nat) :
    Holds (dottedOutline n) [] (besideData (dottedTables n)) := by
  have hkeys : ∀ k, [Step.key "x"] ++ List.replicate k (Step.key "x") =
      List.replicate (k + 1) (Step.key "x") := fun k => List.replicate_succ.symm
  have hapart : ∀ b : Address, ¬ [Step.key "x"] ++ b <+: [Step.key "definitions"] := by
    simp
  have hlong : ∀ b key, key ≠ "x" →
      ¬ b ++ [Step.key key] <+: List.replicate (n + 1) (Step.key "x") := by
    intro b key hkey hpre
    have hmem := hpre.subset (List.mem_append_right b (List.mem_singleton_self (Step.key key)))
    exact hkey (Step.key.inj (List.eq_of_mem_replicate hmem))
  refine holds_beside (by simp [dottedOutline, Outline.add, Sketch.empty]) Outline.add_self
    (holds_dottedTables n _ ?_ (fun k hk => ?_) fun k hk key hkey => ?_)
    fun key hdefinitions hx => ?_
  · rw [dottedOutline_eq n (by simp) (hapart _), if_pos (hkeys n)]
  · have hne : List.replicate (k + 1) (Step.key "x") ≠ List.replicate (n + 1) (Step.key "x") := by
      intro heq
      have hlength := congrArg List.length heq
      simp only [List.length_replicate] at hlength
      omega
    have hpre : List.replicate (k + 1) (Step.key "x") <+: List.replicate (n + 1) (Step.key "x") :=
      List.prefix_replicate_iff.mpr ⟨by simp; omega, by simp⟩
    rw [dottedOutline_eq n (by simp) (hapart _), hkeys, if_neg hne, if_pos hpre]
  · have hpre := hlong ([Step.key "x"] ++ List.replicate k (Step.key "x")) key hkey
    have hne : [Step.key "x"] ++ List.replicate k (Step.key "x") ++ [Step.key key] ≠
        List.replicate (n + 1) (Step.key "x") := fun heq => hpre (heq ▸ List.prefix_refl _)
    rw [dottedOutline_eq n (by simp) (by simp), if_neg hne, if_neg hpre]
  · have hpre := hlong [] key hx
    have hne : [Step.key key] ≠ List.replicate (n + 1) (Step.key "x") :=
      fun heq => hpre (heq ▸ List.prefix_refl _)
    rw [dottedOutline_eq n (by simp) (by simp [hdefinitions]), if_neg hne]
    exact if_neg hpre

/-- In a document without lines all keys lead to something missing. -/
theorem leads_empty (n : Nat) (a : Address) :
    Leads Sketch.empty.outline .keys a (List.replicate n "x")
      (a ++ List.replicate n (Step.key "x")) := by
  induction n generalizing a with
  | zero =>
    rw [List.replicate_zero, List.replicate_zero, List.append_nil]
    exact .here
  | succ n ih =>
    have hrest := ih (a ++ [Step.key "x"])
    rw [List.append_assoc] at hrest
    exact .missing (if_neg (by simp)) hrest

theorem denotes_dottedText (n : Nat) :
    Toml.Denotes (n + 1) 1 (dottedText n) (besideData (dottedTables n)) := by
  have hdraw := @drawAll_beside (List.replicate n "x") "x" (.list [] true) _ (leads_empty n [])
    (fun hne => if_neg (by simpa using hne)) (if_neg (by simp))
    (by cases n <;> simp [List.replicate_succ])
  rw [List.nil_append, ← List.replicate_succ', ← List.replicate_succ'] at hdraw
  refine denotes_besideText (by cases n <;> rfl) n.succ_pos (fun rest => ?_) hdraw
    (holds_dottedOutline n)
  rw [List.append_assoc]
  exact says_entry (keys_dottedKey n _) (List.length_replicate ▸ Nat.le_refl _)
    (.list (.noElements .none))

/-- A key with more segments than the limit is not read. -/
theorem read?_dottedText {n : Nat} (h : depthLimit ≤ n) : read? (dottedText n) = none := by
  refine read?_besideText (by cases n <;> rfl) fun rest => ?_
  rw [List.append_assoc]
  have hequals := spaces_equals ("[]".toList ++ rest)
  obtain ⟨cs, hkeys, hline⟩ := line?_entry (keys_dottedKey n _) hequals (.more (.inl rfl) .none)
    ⟨'[', _, rfl, by decide⟩
  have hlong : ¬ (List.replicate (n + 1) "x").length ≤ depthLimit := by
    rw [List.length_replicate]
    omega
  have hread : keys? cs = none := by
    rw [keys?_of_keys hkeys (hequals.keysEnd (by decide)).1, if_neg hlong]
  exact hline.trans (by rw [hread]; rfl)

end

/-- A text that is not read makes the file invalid, though nothing is wanted from its member. -/
theorem beside_refused {line : List Char} (h : Toml.read? (besideText line) = none) :
    ((oneFile "a.toml" (besideText line)).loadActions ⟨"a.toml"⟩).result =
      .error (.invalidToml "a.toml" .malformed) := by
  have hformat : ConfigFormat.ofPath ⟨"a.toml"⟩ = .ok .toml := by decide +kernel
  have htoml : ofToml (setSchema false) (besideText line) = .error .malformed := by
    simp only [ofToml, h]
  rw [loadActions_result hformat (read_oneFile rfl), ofText, htoml]
  rfl

end FileSystem

end ActionUnits
