import ActionUnits.Proofs.Files.Listing
import ActionUnits.Proofs.Project

/-! # The files that entries of a configuration name

A plain entry names one path, there or not, and a pattern names what it matches, sorted. Entries keep
their order and the first one that names nothing ends the resolution. Nothing of this depends on the
order in which folders list what they hold.
-/

namespace ActionUnits

namespace PathPattern

/-- Where the search for a pattern begins. -/
def start (pattern : PathPattern) : FilePath :=
  if pattern.absolute then ⟨"/"⟩ else ⟨"."⟩

theorem text_start_ne (pattern : PathPattern) : pattern.start.text ≠ "" := by
  unfold start
  split <;> decide

theorem rootless_ne_nil {cs : List Char} {c : Char} (hc : c ∈ cs) (hslash : c ≠ '/') :
    rootless cs ≠ [] := by
  unfold rootless
  split
  next hhead =>
    obtain ⟨rest, rfl⟩ := List.head?_eq_some_iff.mp (eq_of_beq hhead)
    have hmem := (List.mem_cons.mp hc).resolve_left hslash
    exact List.ne_nil_of_mem hmem
  next => exact List.ne_nil_of_mem hc

theorem mem_join {base other : FilePath} {c : Char} (hc : c ∈ other.text.toList) :
    c ∈ (base.join other).text.toList := by
  unfold FilePath.join
  split
  · exact hc
  split
  · rw [String.toList_append]
    exact List.mem_append_right _ hc
  · rw [String.toList_append]
    exact List.mem_append_right _ hc

/-- The pattern of an entry has components, and each is a part of paths. -/
theorem names_of_patternBelow {base : FilePath} {entry : String} {pattern : PathPattern}
    (hentry : isPattern entry = true) (h : FileSystem.patternBelow base entry = .ok pattern) :
    pattern.names ≠ [] ∧ NamePattern.SingleParts pattern.names := by
  obtain ⟨c, hc, hspecial⟩ := List.any_eq_true.mp hentry
  have hslash : c ≠ '/' := by
    rintro rfl
    cases hspecial
  exact ⟨names_ne_nil_of_parse h (rootless_ne_nil (mem_join hc) hslash), singleParts_of_parse h⟩

theorem ne_empty_of_isPattern {entry : String} (h : isPattern entry = true) : entry ≠ "" := by
  rintro rfl
  cases h

end PathPattern

namespace FileSystem

open PathPattern (isPattern)

variable {fs other : FileSystem} {base : FilePath} {entry : String}

/-- Whether a path exists and is matched by the pattern of an entry below a folder. -/
def Names (fs : FileSystem) (base : FilePath) (entry : String) (found : FilePath) : Prop :=
  ∃ pattern, patternBelow base entry = .ok pattern ∧
    fs.Finds pattern.foldersOnly pattern.names pattern.start found

/-- Whether an entry is a pattern that matches something, or no pattern. -/
def Resolves (fs : FileSystem) (base : FilePath) (entry : String) : Prop :=
  isPattern entry = true →
    (∃ pattern, PathPattern.parse entry = .ok pattern) ∧ ∃ found, fs.Names base entry found

/-- Whether paths are those that an entry names: itself, or what it matches in the order of
paths. -/
structure IsNamed (fs : FileSystem) (base : FilePath) (entry : String) (files : List FilePath) :
    Prop where
  plain : isPattern entry = false → files = [base.join ⟨entry⟩]
  sorted : isPattern entry = true → files.Pairwise fun a b => (a.compare b).isLE = true
  matched : isPattern entry = true → ∀ found, found ∈ files ↔ fs.Names base entry found

/-- Why an entry names nothing: it is no valid pattern, or there is nothing that it matches. -/
inductive EntryFault (fs : FileSystem) (base : FilePath) (entry : String) : Error → Prop
  | malformed {fault : PatternFault} (isPattern : isPattern entry = true)
      (invalid : ∀ pattern, PathPattern.parse entry ≠ .ok pattern)
      (reported : patternBelow base entry = .error fault) :
      EntryFault fs base entry (.invalidPattern entry (.malformed fault))
  | noMatch (isPattern : isPattern entry = true)
      (valid : ∃ pattern, PathPattern.parse entry = .ok pattern)
      (nothing : ∀ found, ¬ fs.Names base entry found) :
      EntryFault fs base entry (.noMatch entry)

/-- An entry with a fault gives no files. -/
theorem EntryFault.not_resolves {e : Error} (h : fs.EntryFault base entry e) :
    ¬ fs.Resolves base entry := by
  intro hresolves
  cases h with
  | malformed isPattern invalid reported =>
      obtain ⟨pattern, hpattern⟩ := (hresolves isPattern).1
      exact invalid pattern hpattern
  | noMatch isPattern valid nothing =>
      obtain ⟨found, hfound⟩ := (hresolves isPattern).2
      exact nothing found hfound

/-- An entry has one fault only. -/
theorem EntryFault.unique {e e' : Error} (h : fs.EntryFault base entry e)
    (h' : fs.EntryFault base entry e') : e = e' := by
  cases h with
  | malformed isPattern invalid reported =>
      cases h' with
      | malformed _ _ reported' =>
          rw [reported] at reported'
          cases reported'
          rfl
      | noMatch _ valid _ =>
          obtain ⟨pattern, hpattern⟩ := valid
          exact absurd hpattern (invalid pattern)
  | noMatch isPattern valid nothing =>
      cases h' with
      | malformed _ invalid _ =>
          obtain ⟨pattern, hpattern⟩ := valid
          exact absurd hpattern (invalid pattern)
      | noMatch => rfl

/-! ## Searching -/

/-- What is found is sorted once. -/
theorem search_eq (fs : FileSystem) (pattern : PathPattern) :
    fs.search pattern =
      (fs.expand pattern.foldersOnly pattern.names pattern.start).mergeSort FilePath.precedes :=
  rfl

/-- A search finds exactly the paths that the entry names. -/
theorem mem_search_iff (hwell : fs.WellNamed) {pattern : PathPattern}
    (hentry : isPattern entry = true) (h : patternBelow base entry = .ok pattern)
    {found : FilePath} : found ∈ fs.search pattern ↔ fs.Names base entry found := by
  obtain ⟨hne, hsingle⟩ := PathPattern.names_of_patternBelow hentry h
  rw [search_eq, List.mem_mergeSort,
    mem_expand_iff hwell hsingle pattern.text_start_ne fun hnil => absurd hnil hne]
  constructor
  · exact fun hfound => ⟨pattern, h, hfound⟩
  · rintro ⟨other, hother, hfound⟩
    rw [h] at hother
    cases hother
    exact hfound

/-- What is found is sorted by components. -/
theorem pairwise_search (fs : FileSystem) (pattern : PathPattern) :
    (fs.search pattern).Pairwise fun a b => (a.compare b).isLE = true :=
  FilePath.pairwise_mergeSort _

/-- A search finds the same whatever order folders are listed in. -/
theorem Alike.search (halike : fs.Alike other) (hfs : fs.WellNamed) (hother : other.WellNamed)
    {pattern : PathPattern} (hsingle : NamePattern.SingleParts pattern.names) :
    other.search pattern = fs.search pattern :=
  (halike.sameClasses_expand hfs hother hsingle).symm.mergeSort_eq

/-! ## Entries -/

/-- An entry without wildcards is the path that it says, whether it is there or not. -/
theorem resolveEntry_of_plain (hentry : isPattern entry = false) :
    (fs.resolveEntry base entry).result = .ok [base.join ⟨entry⟩] := by
  rw [resolveEntry, hentry]
  rfl

/-- An entry that is no well-formed pattern gives its own error. -/
theorem resolveEntry_of_malformed (hentry : isPattern entry = true) {fault : PatternFault}
    (h : patternBelow base entry = .error fault) :
    (fs.resolveEntry base entry).result = .error (.invalidPattern entry (.malformed fault)) := by
  rw [resolveEntry, hentry, if_pos rfl, h]
  rfl

/-- A pattern gives what is found, or an error if that is nothing. -/
theorem resolveEntry_of_pattern (hentry : isPattern entry = true) {pattern : PathPattern}
    (h : patternBelow base entry = .ok pattern) :
    fs.resolveEntry base entry =
      if fs.search pattern = [] then ⟨.error (.noMatch entry), []⟩
      else ⟨.ok (fs.search pattern), [.expandedPattern entry (fs.search pattern).length]⟩ := by
  rw [resolveEntry, hentry, if_pos rfl, h]
  simp only [Except.mapError, bind, Logged.andThen, Logged.ofExcept]
  cases fs.search pattern <;> rfl

theorem resolves_of_plain (hentry : isPattern entry = false) : fs.Resolves base entry := by
  intro hpattern
  rw [hentry] at hpattern
  cases hpattern

/-- An entry names its files, or there is a fault in it. -/
theorem resolveEntry_cases (hwell : fs.WellNamed) (base : FilePath) (entry : String) :
    (∃ files, (fs.resolveEntry base entry).result = .ok files ∧ fs.IsNamed base entry files ∧
        fs.Resolves base entry) ∨
      ∃ e, (fs.resolveEntry base entry).result = .error e ∧ fs.EntryFault base entry e := by
  cases hentry : isPattern entry with
  | false =>
      have hnot : isPattern entry = true → False := by simp [hentry]
      exact .inl ⟨_, resolveEntry_of_plain hentry, ⟨fun _ => rfl, fun h => (hnot h).elim,
        fun h => (hnot h).elim⟩, resolves_of_plain hentry⟩
  | true =>
      have hvalid := PathPattern.patternBelow_isOk base (PathPattern.ne_empty_of_isPattern hentry)
      cases hread : patternBelow base entry with
      | error fault =>
          refine .inr ⟨_, resolveEntry_of_malformed hentry hread, .malformed hentry ?_ hread⟩
          intro pattern hpattern
          obtain ⟨other, hother⟩ := hvalid.mpr ⟨pattern, hpattern⟩
          rw [hread] at hother
          cases hother
      | ok pattern =>
          have hparse := hvalid.mp ⟨pattern, hread⟩
          have hmem : ∀ found, found ∈ fs.search pattern ↔ fs.Names base entry found :=
            fun _ => mem_search_iff hwell hentry hread
          rw [resolveEntry_of_pattern hentry hread]
          by_cases hnil : fs.search pattern = []
          · rw [if_pos hnil]
            refine .inr ⟨_, rfl, .noMatch hentry hparse fun found hfound => ?_⟩
            rw [← hmem, hnil] at hfound
            cases hfound
          · rw [if_neg hnil]
            obtain ⟨found, hfound⟩ := List.exists_mem_of_ne_nil _ hnil
            refine .inl ⟨_, rfl, ⟨fun h => ?_, fun _ => fs.pairwise_search pattern,
              fun _ => hmem⟩, fun _ => ⟨hparse, found, (hmem found).mp hfound⟩⟩
            rw [hentry] at h
            cases h

/-- An entry gives files exactly if it is a plain path or a pattern that something matches. -/
theorem resolveEntry_isOk_iff (hwell : fs.WellNamed) :
    (∃ files, (fs.resolveEntry base entry).result = .ok files) ↔ fs.Resolves base entry := by
  rcases resolveEntry_cases hwell base entry with ⟨files, hok, -, hresolves⟩ | ⟨e, herror, hfault⟩
  · exact ⟨fun _ => hresolves, fun _ => ⟨files, hok⟩⟩
  · refine ⟨fun h => ?_, fun h => absurd h hfault.not_resolves⟩
    obtain ⟨files, hok⟩ := h
    rw [herror] at hok
    cases hok

/-- The files that an entry gives are those that it names, in order. -/
theorem isNamed_of_resolveEntry (hwell : fs.WellNamed) {files : List FilePath}
    (h : (fs.resolveEntry base entry).result = .ok files) : fs.IsNamed base entry files := by
  rcases resolveEntry_cases hwell base entry with ⟨files', hok, hnamed, -⟩ | ⟨e, herror, -⟩
  · rw [hok] at h
    cases h
    exact hnamed
  · rw [herror] at h
    cases h

/-- An entry fails exactly with its fault. -/
theorem resolveEntry_eq_error_iff (hwell : fs.WellNamed) {e : Error} :
    (fs.resolveEntry base entry).result = .error e ↔ fs.EntryFault base entry e := by
  rcases resolveEntry_cases hwell base entry with ⟨files, hok, -, hresolves⟩ | ⟨e', herror, hfault⟩
  · refine ⟨fun h => ?_, fun h => absurd hresolves h.not_resolves⟩
    rw [hok] at h
    cases h
  · rw [herror]
    exact ⟨fun h => Except.error.inj h ▸ hfault, fun h => congrArg _ (hfault.unique h)⟩

/-- An entry gives the same whatever order folders are listed in. -/
theorem Alike.resolveEntry (halike : fs.Alike other) (hfs : fs.WellNamed) (hother : other.WellNamed)
    (base : FilePath) (entry : String) :
    other.resolveEntry base entry = fs.resolveEntry base entry := by
  cases hentry : isPattern entry with
  | false => simp only [FileSystem.resolveEntry, hentry, Bool.false_eq_true, ↓reduceIte]
  | true =>
      cases hread : patternBelow base entry with
      | error fault => simp only [FileSystem.resolveEntry, hread, Except.mapError, bind,
          Logged.andThen, Logged.ofExcept]
      | ok pattern =>
          rw [resolveEntry_of_pattern hentry hread, resolveEntry_of_pattern hentry hread,
            halike.search hfs hother (PathPattern.names_of_patternBelow hentry hread).2]

theorem resolve_singleton (fs : FileSystem) (base : FilePath) (entry : String) :
    (fs.resolve base [entry]).result = (fs.resolveEntry base entry).result := by
  rw [resolve_result, List.mapM_cons]
  cases (fs.resolveEntry base entry).result with
  | error e => rfl
  | ok files => exact congrArg Except.ok (List.append_nil files)

/-! ## Resolution -/

/-- Entries resolve if all plain ones are taken as they are and each pattern is valid and matches
something. The files are those of the entries in order, and those of a pattern are all that it
matches, sorted. Else the error is that of the first entry that is no valid pattern or matches
nothing. The order in which folders list their entries makes no difference. -/
theorem resolve_sorts_matches (hwell : fs.WellNamed) (base : FilePath) (entries : List String) :
    ((∃ files, (fs.resolve base entries).result = .ok files) ↔
        ∀ entry ∈ entries, fs.Resolves base entry) ∧
      (∀ files, (fs.resolve base entries).result = .ok files →
        ∃ blocks, files = blocks.flatten ∧ List.Forall₂ (fs.IsNamed base) entries blocks) ∧
      (∀ e, (fs.resolve base entries).result = .error e ↔
        ∃ before entry after, entries = before ++ entry :: after ∧
          (∀ other ∈ before, fs.Resolves base other) ∧ fs.EntryFault base entry e) ∧
      ∀ other : FileSystem, fs.Alike other → other.WellNamed →
        other.resolve base entries = fs.resolve base entries := by
  refine ⟨?_, fun files hfiles => ?_, fun e => ?_, fun other halike hother => ?_⟩
  · simp only [← resolveEntry_isOk_iff hwell, ← exists_mapM_eq_ok_iff, resolve_result]
    cases entries.mapM fun entry => (fs.resolveEntry base entry).result <;> simp [Except.map]
  · rw [resolve_result] at hfiles
    cases hblocks : entries.mapM fun entry => (fs.resolveEntry base entry).result with
    | error e =>
        rw [hblocks] at hfiles
        cases hfiles
    | ok blocks =>
        rw [hblocks] at hfiles
        cases hfiles
        exact ⟨blocks, rfl, (mapM_eq_ok_iff.mp hblocks).imp fun entry block h =>
          isNamed_of_resolveEntry hwell h⟩
  · rw [resolve_eq_error_iff, FirstFailure]
    simp only [resolveEntry_isOk_iff hwell, resolveEntry_eq_error_iff hwell]
  · rw [resolve, resolve, funext (halike.resolveEntry hwell hother base)]

def twoConfigs : List (String × FileEntry) :=
  [("a.json", .file "1".toUTF8), ("b.json", .file "2".toUTF8)]

theorem wellNamed_twoConfigs : (FileEntry.folder twoConfigs).WellNamed := by
  refine .folder (by decide) (by decide) fun named hnamed => ?_
  simp only [twoConfigs, List.mem_cons, List.not_mem_nil, or_false] at hnamed
  rcases hnamed with rfl | rfl <;> exact .file _

def inConf (entries : List (String × FileEntry)) : FileSystem :=
  ⟨[("conf", .folder entries)], [], []⟩

theorem wellNamed_inConf {entries : List (String × FileEntry)}
    (h : (FileEntry.folder entries).WellNamed) : (inConf entries).WellNamed := by
  refine .folder (List.nodup_singleton _) ?_ ?_ <;>
    (intro named hnamed; rw [List.mem_singleton.mp hnamed])
  · exact show IsEntryName "conf" by decide
  · exact h

theorem alike_inConf {entries others : List (String × FileEntry)}
    (h : (FileEntry.folder entries).Alike (.folder others)) :
    (inConf entries).Alike (inConf others) := by
  refine ⟨rfl, .folder (fun _ => .rfl) fun name entry other hentry hother => ?_⟩
  obtain ⟨-, rfl⟩ := Prod.mk.inj (List.mem_singleton.mp (Named.mem_of_lookup hentry))
  obtain ⟨-, rfl⟩ := Prod.mk.inj (List.mem_singleton.mp (Named.mem_of_lookup hother))
  exact h

/-- Also where the folder lists its files the other way round, the matches are sorted, behind the
plain entry, which comes first. -/
theorem reversed_configs_sorted :
    ((inConf twoConfigs.reverse).resolve ⟨"conf"⟩ ["p.toml", "*.json"]).result =
      .ok [⟨"conf/p.toml"⟩, ⟨"conf/a.json"⟩, ⟨"conf/b.json"⟩] := by
  have hwell := wellNamed_twoConfigs
  have hperm : twoConfigs.Perm twoConfigs.reverse := (List.reverse_perm _).symm
  have hread : patternBelow ⟨"conf"⟩ "*.json" = .ok ⟨false, [.literal "conf",
      .wild [.sequence, .char '.', .char 'j', .char 's', .char 'o', .char 'n']], false⟩ := by
    decide +kernel
  have hsearch : (inConf twoConfigs).search ⟨false, [.literal "conf",
      .wild [.sequence, .char '.', .char 'j', .char 's', .char 'o', .char 'n']], false⟩ =
        [⟨"conf/a.json"⟩, ⟨"conf/b.json"⟩] := by
    rw [search_eq, show expand _ _ _ _ = [⟨"conf/a.json"⟩, ⟨"conf/b.json"⟩] by decide +kernel]
    exact List.mergeSort_of_pairwise (by decide +kernel)
  have hforward : ((inConf twoConfigs).resolve ⟨"conf"⟩ ["p.toml", "*.json"]).result =
      .ok [⟨"conf/p.toml"⟩, ⟨"conf/a.json"⟩, ⟨"conf/b.json"⟩] := by
    rw [resolve_result, List.mapM_cons, List.mapM_cons, resolveEntry_of_plain (by decide),
      resolveEntry_of_pattern (by decide) hread, hsearch]
    rfl
  obtain ⟨-, -, -, horder⟩ := resolve_sorts_matches (wellNamed_inConf hwell) ⟨"conf"⟩
    ["p.toml", "*.json"]
  rw [horder _ (alike_inConf (.of_perm hwell hperm)) (wellNamed_inConf (hwell.of_perm hperm)),
    hforward]

end FileSystem

end ActionUnits
