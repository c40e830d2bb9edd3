import ActionUnits.Proofs.Files.Parts
import ActionUnits.Proofs.Files.Resolution

/-! # Folders are taken as they are

A pattern is looked for below a folder whose name may hold characters that patterns give a meaning
to. These are escaped, so the search reaches that folder and no other one, and goes on from there as
the pattern alone says.
-/

namespace ActionUnits

open Text Wildcard

namespace FilePath

/-- A folder that is given by names, from the root or not. -/
structure IsNormal (path : FilePath) : Prop where
  components_ne : path.components ≠ []
  normal : ∀ component ∈ path.components,
    component = .root ∨ ∃ name, component = .normal name

/-- The folder as searching writes it. -/
def written (base : FilePath) : FilePath :=
  if base.isAbsolute then (FilePath.mk "/").along (base.folderParts.map String.ofList)
  else
    match base.folderParts with
    | [] => ⟨"."⟩
    | first :: rest => (FilePath.mk (String.ofList first)).along (rest.map String.ofList)

theorem IsNormal.text_ne {base : FilePath} (h : base.IsNormal) : base.text ≠ "" := by
  intro hempty
  refine h.components_ne ?_
  obtain rfl : base = ⟨""⟩ := by
    cases base
    exact congrArg _ hempty
  decide

/-- The parts of a folder: an empty one in front of the root, else the name that it starts with. -/
theorem IsNormal.split {base : FilePath} (h : base.IsNormal) :
    ∃ first rest, splitAll '/' base.unslashed = first :: rest ∧
      (base.isAbsolute = true ∧ first = [] ∧ base.folderParts = rest ∨
        base.isAbsolute = false ∧ base.folderParts = first :: rest ∧
          ∃ name, component? first = some (.normal name) ∧
            base.firstComponent first = [.normal name]) := by
  obtain ⟨first, rest, hsplit⟩ := List.exists_cons_of_ne_nil (splitAll_ne_nil '/' base.unslashed)
  obtain ⟨more, hparts⟩ : ∃ more, base.parts = first :: more := by
    rcases base.parts_eq_unslashed with hparts | hparts <;> rw [hsplit] at hparts <;>
      exact ⟨_, hparts⟩
  refine ⟨first, rest, hsplit, ?_⟩
  cases habs : base.isAbsolute with
  | true =>
      obtain ⟨others, hothers⟩ := parts_of_isAbsolute habs
      refine .inl ⟨rfl, (List.cons.inj (hparts.symm.trans hothers)).1, ?_⟩
      rw [folderParts, habs, if_pos rfl, hsplit]
      rfl
  | false =>
      refine .inr ⟨rfl, by rw [folderParts, habs, if_neg Bool.false_ne_true, hsplit], ?_⟩
      have hcomponents := components_eq_unslashed hsplit
      -- A relative folder does not start with a point, since it has no such component.
      have hfirst : base.firstComponent first = (component? first).toList := by
        rw [firstComponent, habs, if_neg Bool.false_ne_true, if_neg]
        intro hdot
        have hmem : Component.current ∈ base.components := by
          rw [hcomponents, firstComponent, habs, if_neg Bool.false_ne_true, if_pos hdot]
          exact List.mem_cons_self
        rcases h.normal _ hmem with heq | ⟨name, heq⟩ <;> cases heq
      cases hcomponent : component? first with
      | none =>
          rcases component?_eq_none_iff.mp hcomponent with rfl | rfl
          · rw [isAbsolute_of_parts h.text_ne hparts] at habs
            cases habs
          · rw [firstComponent, habs, hcomponent] at hfirst
            cases hfirst
      | some component =>
          rw [hcomponent] at hfirst
          have hmem : component ∈ base.components := by
            rw [hcomponents, hfirst]
            exact List.mem_cons_self
          rcases h.normal _ hmem with rfl | ⟨name, rfl⟩
          · exact absurd hcomponent (component?_ne_root first)
          · exact ⟨name, rfl, hfirst⟩

end FilePath

/-! ## Escaped parts -/

/-- An escaped part leads to that part and to nothing else. -/
theorem leads_exactly_iff {path found : FilePath} (hpath : path.text ≠ "") {part : List Char}
    (hpart : '/' ∉ part) {patterns : List NamePattern} :
    NamePattern.Leads (NamePattern.exactly part :: patterns) path found ↔
      (path.child (String.ofList part)).text ≠ "" ∧
        NamePattern.Leads patterns (path.child (String.ofList part)) found := by
  rw [NamePattern.exactly_eq]
  split
  next hspecial =>
    obtain ⟨c, hc, hcspecial⟩ := List.any_eq_true.mp hspecial
    -- A part with special characters is escaped, so it denotes itself alone; it is none of the
    -- special names, which have no such characters.
    have hname : ∀ name : String, Denotes (part.map escaped) name.toList ↔
        name = String.ofList part := by
      intro name
      rw [denotes_escaped_iff, ← String.toList_inj, String.toList_ofList]
    have hne : ∀ name : String, name.toList.any isSpecial = false → String.ofList part ≠ name := by
      rintro name hplain rfl
      rw [String.toList_ofList] at hplain
      rw [hplain] at hspecial
      cases hspecial
    have hproper : IsEntryName (String.ofList part) :=
      ⟨hne _ rfl, hne _ rfl, hne _ rfl, by rwa [String.toList_ofList]⟩
    constructor
    · intro h
      cases h with
      | entry proper denotes rest =>
          rw [(hname _).mp denotes] at rest
          exact ⟨FileSystem.text_child_ne hproper.1 hpath hproper.2.2.2, rest⟩
      | point special own denotes rest =>
          rw [(hname _).mp denotes] at special
          rcases special with heq | heq
          · exact absurd heq hproper.2.1
          · exact absurd heq hproper.2.2.1
    · rintro ⟨-, rest⟩
      exact .entry hproper ((hname _).mpr rfl) rest
  next =>
    constructor
    · intro h
      cases h with
      | literal written rest => exact ⟨written, rest⟩
    · exact fun h => .literal h.1 h.2

/-- Below an anchored path, escaped parts lead along themselves. -/
theorem leads_along_iff {path found : FilePath} (hpath : path.IsAnchored)
    {parts : List (List Char)} (hparts : ∀ part ∈ parts, '/' ∉ part)
    {patterns : List NamePattern} :
    NamePattern.Leads (parts.map NamePattern.exactly ++ patterns) path found ↔
      NamePattern.Leads patterns (path.along (parts.map String.ofList)) found := by
  induction parts generalizing path with
  | nil => exact .rfl
  | cons part parts ih =>
      have hpart : '/' ∉ (String.ofList part).toList := by
        rw [String.toList_ofList]
        exact hparts part List.mem_cons_self
      have hnext := hpath.join hpart
      rw [List.map_cons, List.cons_append,
        leads_exactly_iff hpath.text_ne (hparts part List.mem_cons_self), hpath.child,
        ih hnext fun p hp => hparts p (List.mem_cons_of_mem _ hp)]
      exact and_iff_right hnext.text_ne

namespace FilePath

/-- A folder is reached from its first part, the root or a name in the current folder, along the
other ones. -/
theorem IsNormal.exists_origin {base : FilePath} (h : base.IsNormal) :
    ∃ (origin : FilePath) (first : List Char) (rest : List (List Char)),
      splitAll '/' base.unslashed = first :: rest ∧
      base.written = origin.along (rest.map String.ofList) ∧ origin.IsAnchored ∧
      origin.components = base.firstComponent first ∧
      (∀ fs : FileSystem, fs.reach origin = fs.step (fs.start base) first) ∧
      ∀ patterns found,
        NamePattern.Leads (base.folderParts.map NamePattern.exactly ++ patterns)
            (if base.isAbsolute then ⟨"/"⟩ else ⟨"."⟩) found ↔
          NamePattern.Leads (rest.map NamePattern.exactly ++ patterns) origin found := by
  -- An absolute folder starts at the root with an empty first part; any other one starts at the
  -- name that is its first part.
  obtain ⟨first, rest, hsplit, ⟨habs, rfl, hparts⟩ | ⟨hrel, hparts, name, hfirst, hhead⟩⟩ := h.split
  · refine ⟨⟨"/"⟩, [], rest, hsplit, ?_, isAnchored_of_components (by decide) (by decide), ?_,
      fun fs => ?_, fun patterns found => ?_⟩
    · rw [written, if_pos habs, hparts]
    · rw [firstComponent, if_pos habs]
      decide
    · rw [FileSystem.start, if_pos habs]
      rfl
    · rw [if_pos habs, hparts]
  · have hslash : '/' ∉ (String.ofList first).toList := by
      rw [String.toList_ofList]
      exact notMem_of_mem_splitAll (hsplit ▸ List.mem_cons_self)
    have hne : String.ofList first ≠ "" := by
      intro hempty
      rw [← String.toList_inj, String.toList_ofList] at hempty
      rw [hempty] at hfirst
      cases hfirst
    have hcomponents : (FilePath.mk (String.ofList first)).components = [.normal name] := by
      have hone := parts_single hslash
      rw [String.toList_ofList] at hone
      rw [components_eq hone, firstComponent, isAbsolute_single hslash]
      rw [firstComponent, hrel] at hhead
      simpa using hhead
    refine ⟨⟨String.ofList first⟩, first, rest, hsplit, ?_, isAnchored_of_components hne ?_, ?_,
      fun fs => ?_, fun patterns found => ?_⟩
    · rw [written, if_neg (by simp [hrel]), hparts]
    · rw [hcomponents]
      simp
    · rw [hcomponents, hhead]
    · have hreach : fs.reach ⟨String.ofList first⟩ = _ := FileSystem.reach_eq hne
      rw [hreach, parts_single hslash, String.toList_ofList]
      simp [FileSystem.start, isAbsolute_single hslash, hrel]
    · have hchild : (FilePath.mk ".").child (String.ofList first) = ⟨String.ofList first⟩ := by
        rw [FilePath.child, if_pos (by decide)]
      rw [if_neg (by simp [hrel]), hparts, List.map_cons, List.cons_append,
        leads_exactly_iff (by decide) (notMem_of_mem_splitAll (hsplit ▸ List.mem_cons_self)), hchild]
      exact and_iff_right hne

theorem slash_notMem_of_split {base : FilePath} {first : List Char} {rest : List (List Char)}
    (hsplit : splitAll '/' base.unslashed = first :: rest) :
    ∀ part ∈ rest.map String.ofList, '/' ∉ part.toList := by
  intro part hpart
  obtain ⟨cs, hcs, rfl⟩ := List.mem_map.mp hpart
  rw [String.toList_ofList]
  exact notMem_of_mem_splitAll (hsplit ▸ List.mem_cons_of_mem _ hcs)

theorem map_toList_map_ofList (parts : List (List Char)) :
    (parts.map String.ofList).map String.toList = parts := by
  simp [Function.comp_def]

section Written

variable {base : FilePath} (h : base.IsNormal)

include h

theorem IsNormal.isAnchored_written : base.written.IsAnchored := by
  obtain ⟨origin, first, rest, hsplit, hwritten, horigin, -, -, -⟩ := h.exists_origin
  rw [hwritten]
  exact horigin.along (slash_notMem_of_split hsplit)

/-- A folder that is written part by part has the components that it had. -/
theorem IsNormal.components_written : base.written.components = base.components := by
  obtain ⟨origin, first, rest, hsplit, hwritten, horigin, hcomponents, -, -⟩ := h.exists_origin
  rw [hwritten, components_along horigin.text_ne (slash_notMem_of_split hsplit), hcomponents,
    map_toList_map_ofList, components_eq_unslashed hsplit]

/-- What follows a folder is where it is below the folder as it is written. -/
theorem IsNormal.reach_written (fs : FileSystem) {x : FilePath} (hrel : x.isAbsolute = false) :
    fs.reach (base.join x) =
      fs.reach base.written >>= fun here => x.parts.foldlM fs.step here := by
  obtain ⟨origin, first, rest, hsplit, hwritten, horigin, -, hreach, -⟩ := h.exists_origin
  rw [FileSystem.reach_join_eq h.text_ne hrel, hwritten,
    FileSystem.reach_along horigin.text_ne (slash_notMem_of_split hsplit), hreach,
    map_toList_map_ofList, hsplit, List.foldlM_cons]

/-- The exact parts of a folder lead to the folder. -/
theorem IsNormal.leads_written {patterns : List NamePattern} {found : FilePath} :
    NamePattern.Leads (base.folderParts.map NamePattern.exactly ++ patterns)
        (if base.isAbsolute then ⟨"/"⟩ else ⟨"."⟩) found ↔
      NamePattern.Leads patterns base.written found := by
  obtain ⟨origin, first, rest, hsplit, hwritten, horigin, -, -, hleads⟩ := h.exists_origin
  rw [hleads, hwritten, leads_along_iff horigin]
  exact fun part hpart => notMem_of_mem_splitAll (hsplit ▸ List.mem_cons_of_mem _ hpart)

end Written

end FilePath

/-! ## Paths relative to a folder -/

/-- Whether a relative path is matched by a pattern, whatever there is in a file system. -/
def PathPattern.Matches (pattern : PathPattern) (x : FilePath) : Prop :=
  x.isAbsolute = false ∧ NamePattern.Matches pattern.names (x.parts.map String.ofList)

/-- Whether a pattern matches a path seen from a folder, and what it asks for is there. -/
structure FileSystem.MatchesBelow (fs : FileSystem) (base : FilePath) (pattern : PathPattern)
    (x : FilePath) : Prop where
  matched : pattern.Matches x
  exists_join : fs.exists? (base.join x) = true
  folder : NamePattern.WantsFolder pattern.foldersOnly pattern.names →
    fs.isFolder (base.join x) = true

/-- Parts are those of a relative path, unless the first one is empty. -/
theorem exists_parts_eq {first : String} {rest : List String} (hne : first ≠ "")
    (hslash : ∀ part ∈ first :: rest, '/' ∉ part.toList) :
    ∃ x : FilePath, x.isAbsolute = false ∧ x.parts.map String.ofList = first :: rest := by
  have hparts : FilePath.parts
      ⟨String.ofList (['/'].intercalate ((first :: rest).map String.toList))⟩ =
        (first :: rest).map String.toList := by
    rw [FilePath.parts, String.toList_ofList]
    refine splitAll_intercalate (by simp) fun piece hpiece => ?_
    obtain ⟨part, hpart, rfl⟩ := List.mem_map.mp hpiece
    exact hslash part hpart
  refine ⟨_, ?_, by rw [hparts]; simp [Function.comp_def]⟩
  rw [Bool.eq_false_iff]
  intro habs
  obtain ⟨others, hothers⟩ := FilePath.parts_of_isAbsolute habs
  rw [hparts, List.map_cons] at hothers
  exact hne (String.toList_eq_nil_iff.mp (List.cons.inj hothers).1)

/-- What a relative pattern matches does not start with an empty part. -/
theorem NamePattern.Matches.exists_cons {patterns : List NamePattern} {parts : List String}
    (h : NamePattern.Matches patterns parts) (hne : patterns ≠ [])
    (hhead : patterns.head? ≠ some (.literal "")) :
    ∃ first rest, parts = first :: rest ∧ first ≠ "" := by
  cases h with
  | nil => exact absurd rfl hne
  | @literal text patterns parts rest =>
      refine ⟨text, parts, rfl, ?_⟩
      rintro rfl
      exact hhead rfl
  | @wild wildcards patterns part parts denotes proper rest =>
      refine ⟨part, parts, rfl, ?_⟩
      rcases proper with proper | ⟨rfl | rfl, -⟩
      · exact proper.1
      · decide
      · decide
  | folders ne proper =>
      obtain ⟨first, rest, rfl⟩ := List.exists_cons_of_ne_nil ne
      exact ⟨first, rest, rfl, (proper first List.mem_cons_self).1⟩
  | @deeper pattern patterns folders parts part proper name names rest =>
      cases folders with
      | nil => exact ⟨part, parts, rfl, name.1⟩
      | cons first folders =>
          exact ⟨first, _, rfl, (proper first List.mem_cons_self).1⟩

namespace FileSystem

open PathPattern (isPattern)

variable {fs : FileSystem} {base : FilePath} {entry : String} {pattern : PathPattern}

/-- Paths that lead to the same place denote the same. -/
theorem entry_congr {a b : FilePath} (h : fs.reach a = fs.reach b) : fs.entry a = fs.entry b := by
  unfold FileSystem.entry
  change (fs.reach a >>= _) = fs.reach b >>= _
  rw [h]

theorem exists?_congr {a b : FilePath} (h : fs.reach a = fs.reach b) :
    fs.exists? a = fs.exists? b := by
  rw [exists?, exists?, entry_congr h]

theorem isFolder_congr {a b : FilePath} (h : fs.reach a = fs.reach b) :
    fs.isFolder a = fs.isFolder b := by
  rw [isFolder, isFolder, entry_congr h]

/-- The pattern below a folder starts with the exact parts of the folder. -/
theorem patternBelow_eq (hbase : base.IsNormal) (hentry : isPattern entry = true)
    (hrel : (FilePath.mk entry).isAbsolute = false) (hparse : PathPattern.parse entry = .ok pattern) :
    patternBelow base entry = .ok ⟨base.isAbsolute,
      base.folderParts.map NamePattern.exactly ++ pattern.names, pattern.foldersOnly⟩ := by
  have hread := PathPattern.toOption_patternBelow hbase.text_ne
    (PathPattern.ne_empty_of_isPattern hentry) hrel
  rw [hparse] at hread
  cases hbelow : patternBelow base entry with
  | error fault =>
      rw [hbelow] at hread
      cases hread
  | ok other =>
      rw [hbelow] at hread
      exact congrArg _ (Option.some.inj hread)

/-- Below a folder, an entry names the paths that its pattern alone matches from there. -/
theorem names_iff (hbase : base.IsNormal) (hentry : isPattern entry = true)
    (hrel : (FilePath.mk entry).isAbsolute = false) (hparse : PathPattern.parse entry = .ok pattern)
    {found : FilePath} :
    fs.Names base entry found ↔ ∃ x, fs.MatchesBelow base pattern x ∧
      found = base.written.along (x.parts.map String.ofList) := by
  have hbelow := patternBelow_eq hbase hentry hrel hparse
  have halone : patternBelow ⟨""⟩ entry = .ok pattern :=
    (PathPattern.patternBelow_eq_parse (.inl rfl)).trans hparse
  obtain ⟨hne, hsingle⟩ := PathPattern.names_of_patternBelow hentry halone
  have hanchored := hbase.isAnchored_written
  -- The pattern has a name of its own, so whether it asks for a folder does not depend on the parts
  -- that are put in front.
  have hwants : NamePattern.WantsFolder pattern.foldersOnly
      (base.folderParts.map NamePattern.exactly ++ pattern.names) ↔
        NamePattern.WantsFolder pattern.foldersOnly pattern.names := by
    rw [NamePattern.WantsFolder, NamePattern.WantsFolder, List.getLast?_append,
      List.getLast?_eq_some_getLast hne, Option.some_or]
  have hsame : ∀ {x : FilePath}, pattern.Matches x →
      fs.reach (base.written.along (x.parts.map String.ofList)) = fs.reach (base.join x) := by
    intro x hx
    rw [hbase.reach_written fs hx.1, reach_along hanchored.text_ne fun part hpart =>
      hx.2.slash_notMem hsingle hpart, FilePath.map_toList_map_ofList]
  constructor
  · rintro ⟨other, hother, hleads, hexists, hfolder⟩
    rw [hbelow] at hother
    cases hother
    obtain ⟨parts, hmatches, rfl⟩ :=
      (leads_iff hanchored hsingle).mp (hbase.leads_written.mp hleads)
    obtain ⟨first, rest, rfl, hfirst⟩ := hmatches.exists_cons hne
      (PathPattern.head?_ne_empty_of_parse hparse hrel)
    obtain ⟨x, hx, hparts⟩ := exists_parts_eq hfirst fun part hpart =>
      hmatches.slash_notMem hsingle hpart
    rw [← hparts] at hmatches hexists hfolder ⊢
    have hreach := hsame ⟨hx, hmatches⟩
    rw [exists?_congr hreach] at hexists
    rw [isFolder_congr hreach, hwants] at hfolder
    exact ⟨x, ⟨⟨hx, hmatches⟩, hexists, hfolder⟩, rfl⟩
  · rintro ⟨x, ⟨hx, hexists, hfolder⟩, rfl⟩
    have hreach := hsame hx
    refine ⟨_, hbelow, hbase.leads_written.mpr ((leads_iff hanchored hsingle).mpr ⟨_, hx.2, rfl⟩),
      ?_, ?_⟩
    · rw [exists?_congr hreach]
      exact hexists
    · rw [isFolder_congr hreach, hwants]
      exact hfolder

/-- What is found is where the path below the folder is. -/
theorem components_along_written (hbase : base.IsNormal) {x : FilePath}
    (hx : pattern.Matches x) (hsingle : NamePattern.SingleParts pattern.names) :
    (base.written.along (x.parts.map String.ofList)).components = (base.join x).components := by
  rw [FilePath.components_along hbase.isAnchored_written.text_ne fun part hpart =>
      hx.2.slash_notMem hsingle hpart, FilePath.map_toList_map_ofList, hbase.components_written,
    FilePath.components_join hbase.text_ne hx.1]
  rfl

/-- A folder is taken as it is, whatever characters its name has. A relative pattern is as valid below
it as it is alone, and what is found are the paths that the pattern alone matches and that are there
below the folder, and nothing else; so all that is found is below the folder. Where there is no
folder, the pattern is looked for as it stands. -/
theorem folder_taken_literally (hwell : fs.WellNamed) (hbase : base.IsNormal)
    (hentry : isPattern entry = true) (hrel : (FilePath.mk entry).isAbsolute = false) :
    ((∃ pattern, patternBelow base entry = .ok pattern) ↔
        ∃ pattern, PathPattern.parse entry = .ok pattern) ∧
      (∀ pattern, PathPattern.parse entry = .ok pattern →
        ((∃ files, (fs.resolve base [entry]).result = .ok files) ↔
          ∃ x, fs.MatchesBelow base pattern x) ∧
        ∀ files, (fs.resolve base [entry]).result = .ok files →
          (∀ components, (∃ found ∈ files, found.components = components) ↔
            ∃ x, fs.MatchesBelow base pattern x ∧ (base.join x).components = components) ∧
          ∀ found ∈ files, base.components <+: found.components) ∧
      patternBelow ⟨""⟩ entry = PathPattern.parse entry := by
  refine ⟨PathPattern.patternBelow_isOk base (PathPattern.ne_empty_of_isPattern hentry),
    fun pattern hparse => ?_, PathPattern.patternBelow_eq_parse (.inl rfl)⟩
  have hsingle := PathPattern.singleParts_of_parse hparse
  -- All three parts follow from which paths are named.
  have hnames : ∀ found, fs.Names base entry found ↔ ∃ x, fs.MatchesBelow base pattern x ∧
      found = base.written.along (x.parts.map String.ofList) :=
    fun _ => names_iff hbase hentry hrel hparse
  rw [resolve_singleton]
  refine ⟨?_, fun files hfiles => ?_⟩
  · rw [resolveEntry_isOk_iff hwell]
    constructor
    · intro h
      obtain ⟨found, hfound⟩ := (h hentry).2
      obtain ⟨x, hx, -⟩ := (hnames found).mp hfound
      exact ⟨x, hx⟩
    · rintro ⟨x, hx⟩ -
      exact ⟨⟨pattern, hparse⟩, _, (hnames _).mpr ⟨x, hx, rfl⟩⟩
  · have hmem := (isNamed_of_resolveEntry hwell hfiles).matched hentry
    simp only [hmem, hnames]
    refine ⟨fun components => ⟨?_, ?_⟩, ?_⟩
    · rintro ⟨found, ⟨x, hx, rfl⟩, hcomponents⟩
      exact ⟨x, hx, (components_along_written hbase hx.matched hsingle).symm.trans hcomponents⟩
    · rintro ⟨x, hx, hcomponents⟩
      exact ⟨_, ⟨x, hx, rfl⟩,
        (components_along_written hbase hx.matched hsingle).trans hcomponents⟩
    · rintro found ⟨x, hx, rfl⟩
      rw [components_along_written hbase hx.matched hsingle,
        FilePath.components_join hbase.text_ne hx.matched.1]
      exact List.prefix_append _ _

/-- A folder whose name is a pattern that its sibling matches. -/
def bracketFolders : FileSystem :=
  ⟨[("a[1]", .folder [("x.json", .file "1".toUTF8)]),
    ("a1", .folder [("y.json", .file "2".toUTF8)])], [], []⟩

theorem wellNamed_bracketFolders : bracketFolders.WellNamed := by
  have hone : ∀ name content, IsEntryName name →
      (FileEntry.folder [(name, .file content)]).WellNamed := by
    intro name content hname
    refine .folder (List.nodup_singleton _) ?_ ?_ <;>
      (intro named hnamed; rw [List.mem_singleton.mp hnamed])
    · exact hname
    · exact .file content
  refine .folder (by decide) (by decide) fun named hnamed => ?_
  simp only [bracketFolders, List.mem_cons, List.not_mem_nil, or_false] at hnamed
  rcases hnamed with rfl | rfl <;> exact hone _ _ (by decide)

/-- The folder is searched, and its sibling is not. -/
theorem brackets_searched :
    ∃ files, (bracketFolders.resolve ⟨"a[1]"⟩ ["*.json"]).result = .ok files ∧
      ∀ found ∈ files, [.normal "a[1]"] <+: found.components := by
  have hcomponents : (FilePath.mk "a[1]").components = [.normal "a[1]"] := by decide
  have hbase : (FilePath.mk "a[1]").IsNormal := by
    refine ⟨by simp [hcomponents], fun component hcomponent => .inr ⟨"a[1]", ?_⟩⟩
    rw [hcomponents] at hcomponent
    exact List.mem_singleton.mp hcomponent
  have hparse : PathPattern.parse "*.json" = .ok ⟨false,
      [.wild [.sequence, .char '.', .char 'j', .char 's', .char 'o', .char 'n']], false⟩ := by
    decide +kernel
  obtain ⟨hok, hfound⟩ := (folder_taken_literally wellNamed_bracketFolders hbase (by decide)
    (by decide)).2.1 _ hparse
  have hmatched : NamePattern.Matches [.wild [.sequence, .char '.', .char 'j', .char 's',
      .char 'o', .char 'n']] ["x.json"] :=
    .wild (matchAll_iff.mp (by decide)) (.inl (by decide)) .nil
  obtain ⟨files, hfiles⟩ := hok.mpr ⟨⟨"x.json"⟩, ⟨by decide, hmatched⟩, by decide +kernel, by simp
    [NamePattern.WantsFolder]⟩
  exact ⟨files, hfiles, hcomponents ▸ (hfound files hfiles).2⟩

end FileSystem

end ActionUnits
