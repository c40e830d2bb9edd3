import ActionUnits.Proofs.Files.Following
import ActionUnits.Proofs.Files.PatternBelow

/-! # The paths that a pattern matches

What a pattern matches is a matter of the pattern and of paths as they are written, whatever there
is in a file system. Searching lists folders on its way, and finds all paths that the pattern matches
and that exist, and no others.
-/

namespace ActionUnits

open Wildcard

/-! ## Names of entries -/

/-- Whether a name can stand in a folder. -/
def IsEntryName (name : String) : Prop :=
  name ≠ "" ∧ name ≠ "." ∧ name ≠ ".." ∧ '/' ∉ name.toList

instance (name : String) : Decidable (IsEntryName name) :=
  inferInstanceAs (Decidable (_ ∧ _))

/-- Each name below an entry can stand in a folder, and no folder has a name twice. -/
inductive FileEntry.WellNamed : FileEntry → Prop
  | file (content : ByteArray) : WellNamed (.file content)
  | folder {entries : List (String × FileEntry)} (once : (entries.map (·.1)).Nodup)
      (names : ∀ named ∈ entries, IsEntryName named.1)
      (inner : ∀ named ∈ entries, WellNamed named.2) : WellNamed (.folder entries)

/-- The names of a file system are as those of a disk. -/
def FileSystem.WellNamed (fs : FileSystem) : Prop :=
  (FileEntry.folder fs.tree).WellNamed

/-! ## Matching paths -/

/-- The paths of entries at any depth below a folder, with their names. -/
inductive FilePath.Under : FilePath → String → FilePath → Prop
  | entry {path : FilePath} {name : String} (proper : IsEntryName name) :
      Under path name (path.child name)
  | deeper {path found : FilePath} {folder name : String} (proper : IsEntryName folder)
      (inner : Under (path.child folder) name found) : Under path name found

/-- The paths that components of a pattern lead to from a path. Wildcards stand for names of
entries, and for `.` and `..` only behind a point that the pattern has itself; a double asterisk
stands for folders at any depth. A path without text is none. -/
inductive NamePattern.Leads : List NamePattern → FilePath → FilePath → Prop
  | here {path : FilePath} : Leads [] path path
  | literal {text : String} {patterns : List NamePattern} {path found : FilePath}
      (written : (path.child text).text ≠ "") (rest : Leads patterns (path.child text) found) :
      Leads (.literal text :: patterns) path found
  | entry {wildcards : List Wildcard} {patterns : List NamePattern} {path found : FilePath}
      {name : String} (proper : IsEntryName name) (denotes : Denotes wildcards name.toList)
      (rest : Leads patterns (path.child name) found) :
      Leads (.wild wildcards :: patterns) path found
  | point {wildcards : List Wildcard} {patterns : List NamePattern} {path found : FilePath}
      {name : String} (special : name = "." ∨ name = "..")
      (own : wildcards.head? = some (.char '.')) (denotes : Denotes wildcards name.toList)
      (rest : Leads patterns (path.join ⟨name⟩) found) :
      Leads (.wild wildcards :: patterns) path found
  | folders {path found : FilePath} {name : String} (under : path.Under name found) :
      Leads [.recursive] path found
  | deeper {pattern : NamePattern} {patterns : List NamePattern} {path next found : FilePath}
      {name : String} (under : path.Under name next) (names : pattern.Names name)
      (rest : Leads patterns next found) : Leads (.recursive :: pattern :: patterns) path found

namespace FileTree

/-- What stands in a folder stands below its location. -/
theorem get?_append_singleton {tree : FileTree} {folder : Location}
    {entries : List (String × FileEntry)} (h : tree.get? folder = some (.folder entries))
    (name : String) : tree.get? (folder ++ [name]) = entries.lookup name := by
  induction folder generalizing tree with
  | nil =>
      cases h
      exact get?_singleton _ _
  | cons first rest ih =>
      by_cases hfirst : ∃ inner, tree.lookup first = some (.folder inner)
      · obtain ⟨inner, hfirst⟩ := hfirst
        rw [get?_cons_of_folder hfirst] at h
        rw [List.cons_append, get?_cons_of_folder hfirst]
        exact ih h
      · have hnone := not_exists.mp hfirst
        by_cases hrest : rest = []
        · rw [hrest, get?_singleton] at h
          exact absurd h (hnone entries)
        · rw [get?_cons_of_not_folder hnone hrest] at h
          cases h

/-- What is in a tree with well-formed names has well-formed names. -/
theorem wellNamed_get? {tree : FileTree} (h : (FileEntry.folder tree).WellNamed)
    {location : Location} {entry : FileEntry} (hentry : tree.get? location = some entry) :
    entry.WellNamed := by
  induction location generalizing tree with
  | nil =>
      cases hentry
      exact h
  | cons name rest ih =>
      cases h with
      | folder once names inner =>
          unfold get? at hentry
          split at hentry
          next entries hname => exact ih (inner _ (Named.mem_of_lookup hname)) hentry
          next content hname =>
            split at hentry
            · cases hentry
              exact .file content
            · cases hentry
          next => cases hentry

end FileTree

namespace FileSystem

variable {fs : FileSystem} {path : FilePath}

/-! ## Entries of folders -/

theorem component?_entryName {name : String} (h : IsEntryName name) :
    FilePath.component? name.toList = some (.normal name) := by
  obtain ⟨hempty, hdot, hdots, -⟩ := h
  have hne : ∀ text : String, name ≠ text → name.toList ≠ text.toList :=
    fun text hne => mt String.toList_inj.mp hne
  have hempty : name.toList ≠ [] := hne _ hempty
  have hdot : name.toList ≠ ['.'] := hne _ hdot
  have hdots : name.toList ≠ ['.', '.'] := hne _ hdots
  simp [FilePath.component?, hempty, hdot, hdots, -String.toList_eq_nil_iff]

/-- Only in a folder can something be found. -/
theorem isFolder_of_exists?_child {text : String} (hpath : path.text ≠ "")
    (htext : '/' ∉ text.toList) (h : fs.exists? (path.child text) = true) :
    fs.isFolder path = true := by
  obtain ⟨location, entry, hreach, -⟩ := exists?_iff.mp h
  have hchild : (path.child text).text ≠ "" := by
    intro hempty
    rw [reach, follow, if_pos (String.isEmpty_iff.mpr hempty)] at hreach
    cases hreach
  obtain ⟨here, hhere, hstep⟩ := (reach_child_eq_ok_iff hpath htext hchild).mp hreach
  exact isFolder_iff.mpr ⟨here, hhere, (step_eq_ok_iff.mp hstep).1⟩

theorem wellNamed_entry (hwell : fs.WellNamed) {entry : FileEntry} (h : fs.entry path = .ok entry) :
    entry.WellNamed := by
  obtain ⟨location, -, hget⟩ := entry_eq_ok_iff.mp h
  exact FileTree.wellNamed_get? hwell hget

/-- What a name in a folder denotes is looked up there. -/
theorem entry_child_eq_ok_iff (hpath : path.text ≠ "") {entries : List (String × FileEntry)}
    (hfolder : fs.entry path = .ok (.folder entries)) {name : String} (hname : IsEntryName name)
    {entry : FileEntry} :
    fs.entry (path.child name) = .ok entry ↔ entries.lookup name = some entry := by
  obtain ⟨here, hhere, hget⟩ := entry_eq_ok_iff.mp hfolder
  have hstep : ∀ there, fs.step here name.toList = .ok there ↔ there = here ++ [name] := by
    intro there
    rw [step_eq_ok_iff, component?_entryName hname]
    exact ⟨fun h => h.2, fun h => ⟨⟨entries, hget⟩, h⟩⟩
  have hchild := text_child_ne hname.1 hpath hname.2.2.2
  rw [entry_eq_ok_iff, ← FileTree.get?_append_singleton hget name]
  simp only [reach_child_eq_ok_iff hpath hname.2.2.2 hchild, hhere, Except.ok.injEq,
    exists_eq_left', hstep, exists_eq_left]

theorem exists?_of_entry {entry : FileEntry} (h : fs.entry path = .ok entry) :
    fs.exists? path = true := by
  rw [exists?, h]
  rfl

theorem entry_of_exists? (h : fs.exists? path = true) : ∃ entry, fs.entry path = .ok entry := by
  obtain ⟨location, entry, hreach, hget⟩ := exists?_iff.mp h
  exact ⟨entry, entry_eq_ok_iff.mpr ⟨location, hreach, hget⟩⟩

theorem entry_of_isFolder (h : fs.isFolder path = true) :
    ∃ entries, fs.entry path = .ok (.folder entries) := by
  obtain ⟨location, hreach, entries, hget⟩ := isFolder_iff.mp h
  exact ⟨entries, entry_eq_ok_iff.mpr ⟨location, hreach, hget⟩⟩

/-! ## Everything below a folder -/

/-- What is inside a folder is its entries, each with what is inside it. -/
theorem insideAll_eq_flatMap (path : FilePath) (entries : List (String × FileEntry)) :
    insideAll path entries = entries.flatMap fun named =>
      (named.1, path.child named.1) :: named.2.inside (path.child named.1) := by
  induction entries with
  | nil => rfl
  | cons named entries ih =>
      obtain ⟨name, entry⟩ := named
      rw [insideAll, List.flatMap_cons, ih]

/-- A path below another one exists only if that is a folder. -/
theorem isFolder_of_under {name : String} {found : FilePath} (hpath : path.text ≠ "")
    (hunder : path.Under name found) (hfound : fs.exists? found = true) :
    fs.isFolder path = true := by
  induction hunder with
  | entry proper => exact isFolder_of_exists?_child hpath proper.2.2.2 hfound
  | deeper proper _ ih =>
      have hchild := ih (text_child_ne proper.1 hpath proper.2.2.2) hfound
      obtain ⟨entries, hentries⟩ := entry_of_isFolder hchild
      exact isFolder_of_exists?_child hpath proper.2.2.2 (exists?_of_entry hentries)

/-- Listing finds all there is below a path. -/
theorem mem_inside_iff {entry : FileEntry} (hwell : entry.WellNamed) (hpath : path.text ≠ "")
    (hentry : fs.entry path = .ok entry) {name : String} {found : FilePath} :
    (name, found) ∈ entry.inside path ↔ path.Under name found ∧ fs.exists? found = true := by
  -- On the entry, at whichever path it is found.
  induction hwell generalizing path with
  | file content =>
      rw [FileEntry.inside]
      refine ⟨nofun, fun h => ?_⟩
      obtain ⟨entries, hentries⟩ := entry_of_isFolder (isFolder_of_under hpath h.1 h.2)
      rw [hentry] at hentries
      cases hentries
  | @folder entries once names inner ih =>
      have hlookup : ∀ {name}, IsEntryName name → ∀ {entry},
          (fs.entry (path.child name) = .ok entry ↔ entries.lookup name = some entry) :=
        fun proper => entry_child_eq_ok_iff hpath hentry proper
      have hchild := fun {name : String} (proper : IsEntryName name) =>
        text_child_ne proper.1 hpath proper.2.2.2
      rw [FileEntry.inside, insideAll_eq_flatMap, List.mem_flatMap]
      constructor
      · rintro ⟨⟨folder, entry⟩, hmem, hfound⟩
        have proper := names _ hmem
        have hdenotes := (hlookup proper).mpr (Named.lookup_of_mem once hmem)
        rcases List.mem_cons.mp hfound with heq | hinside
        · cases heq
          exact ⟨.entry proper, exists?_of_entry hdenotes⟩
        · obtain ⟨hunder, hexists⟩ := (ih _ hmem (hchild proper) hdenotes).mp hinside
          exact ⟨.deeper proper hunder, hexists⟩
      · rintro ⟨hunder, hexists⟩
        cases hunder with
        | entry proper =>
            obtain ⟨entry, hdenotes⟩ := entry_of_exists? hexists
            exact ⟨(name, entry), Named.mem_of_lookup ((hlookup proper).mp hdenotes),
              List.mem_cons_self⟩
        | @deeper _ _ folder _ proper hunder =>
            have hfolder := isFolder_of_under (hchild proper) hunder hexists
            obtain ⟨entries', hdenotes⟩ := entry_of_isFolder hfolder
            have hmem := Named.mem_of_lookup ((hlookup proper).mp hdenotes)
            exact ⟨_, hmem, List.mem_cons_of_mem _
              ((ih _ hmem (hchild proper) hdenotes).mpr ⟨hunder, hexists⟩)⟩

/-! ## Single components -/

/-- From a folder, `.` and `..` always lead to a folder. -/
theorem exists?_of_step_point {next : FilePath} {name : String} (hname : name = "." ∨ name = "..")
    (hreach : fs.reach next = fs.reach path >>= fun here => fs.step here name.toList) :
    fs.exists? next = true ↔ fs.isFolder path = true := by
  have hfolder : ∀ {here there}, fs.step here name.toList = .ok there →
      fs.tree.HasFolder here ∧ fs.tree.HasFolder there := by
    intro here there hstep
    obtain ⟨hhere, rfl⟩ := step_eq_ok_iff.mp hstep
    refine ⟨hhere, ?_⟩
    rcases hname with rfl | rfl
    · exact hhere
    · rcases List.eq_nil_or_concat here with rfl | ⟨outer, last, rfl⟩
      · exact ⟨fs.tree, rfl⟩
      · rw [List.concat_eq_append] at hhere ⊢
        have houter : fs.tree.HasFolder outer := hhere.of_append
        simpa [FilePath.component?, walk] using houter
  rw [exists?_iff, isFolder_iff, hreach]
  cases hhere : fs.reach path with
  | error fault => simp [bind, Except.bind]
  | ok here =>
      simp only [bind, Except.bind, Except.ok.injEq, exists_eq_left']
      constructor
      · rintro ⟨there, -, hstep, -⟩
        exact (hfolder hstep).1
      · intro hfolder'
        have hstep : fs.step here name.toList = .ok _ := step_eq_ok_iff.mpr ⟨hfolder', rfl⟩
        obtain ⟨entries, hentries⟩ := (hfolder hstep).2
        exact ⟨_, _, hstep, hentries⟩

theorem text_ne_of_exists? (h : fs.exists? path = true) : path.text ≠ "" := by
  intro hempty
  obtain ⟨location, entry, hreach, -⟩ := exists?_iff.mp h
  rw [reach, follow, if_pos (String.isEmpty_iff.mpr hempty)] at hreach
  cases hreach

theorem slash_notMem_point {name : String} (hname : name = "." ∨ name = "..") :
    '/' ∉ name.toList := by
  rcases hname with rfl | rfl <;> decide

/-- A literal name is found exactly if it is there. -/
theorem literal?_eq_some_iff (hpath : path.text ≠ "") {text : String} (htext : '/' ∉ text.toList)
    {next : FilePath} :
    fs.literal? path text = some next ↔ next = path.child text ∧ fs.exists? next = true := by
  have hfound : (if text == "." || text == ".." then fs.isFolder path
      else fs.exists? (path.child text)) = fs.exists? (path.child text) := by
    split
    next hpoint =>
      have hpoint : text = "." ∨ text = ".." := by simpa using hpoint
      have hne : text ≠ "" := by rcases hpoint with rfl | rfl <;> decide
      have hreach : fs.reach (path.child text) =
          fs.reach path >>= fun here => fs.step here text.toList :=
        reach_child hpath htext (text_child_ne hne hpath htext)
      exact Bool.eq_iff_iff.mpr (exists?_of_step_point hpoint hreach).symm
    next => rfl
  simp only [literal?, hfound]
  split
  next h =>
    rw [Option.some_inj, eq_comm]
    exact ⟨fun heq => ⟨heq, heq ▸ h⟩, fun heq => heq.1⟩
  next h =>
    refine ⟨nofun, ?_⟩
    rintro ⟨rfl, hexists⟩
    exact absurd hexists h

/-- The two names made of points are matched only by patterns that start with a point. -/
theorem mem_pointNames_iff {wildcards : List Wildcard} {name : String} :
    name ∈ (NamePattern.wild wildcards).pointNames ↔
      (name = "." ∨ name = "..") ∧ wildcards.head? = some (.char '.') ∧
        Denotes wildcards name.toList := by
  unfold NamePattern.pointNames
  split
  next rest heq =>
    cases heq
    rw [List.mem_filter, matchAll_iff]
    simp [or_comm]
  next hother =>
    refine ⟨nofun, ?_⟩
    rintro ⟨-, hhead, -⟩
    obtain ⟨rest, rfl⟩ := List.head?_eq_some_iff.mp hhead
    exact absurd rfl (hother rest)

/-- Listing a folder finds the paths that a component with wildcards leads to. -/
theorem mem_wild_iff (hwell : fs.WellNamed) (hpath : path.text ≠ "") {wildcards : List Wildcard}
    {next : FilePath} :
    next ∈ fs.wild path (.wild wildcards) ↔ fs.exists? next = true ∧ ∃ name,
      Denotes wildcards name.toList ∧
        (IsEntryName name ∧ next = path.child name ∨
          (name = "." ∨ name = "..") ∧ wildcards.head? = some (.char '.') ∧
            next = path.join ⟨name⟩) := by
  -- From a folder the special names lead to a folder, which is always there.
  have hpoint : ∀ {name}, name = "." ∨ name = ".." →
      (fs.exists? (path.join ⟨name⟩) = true ↔ fs.isFolder path = true) := fun hname =>
    exists?_of_step_point hname (reach_join hpath (slash_notMem_point hname))
  unfold wild
  split
  next hfolder =>
    obtain ⟨entries, hentries⟩ := entry_of_isFolder hfolder
    have hchild : ∀ {name}, IsEntryName name → ∀ {entry},
        (fs.entry (path.child name) = .ok entry ↔ entries.lookup name = some entry) :=
      fun proper => entry_child_eq_ok_iff hpath hentries proper
    have hnames : fs.names path = entries.map (·.1) := by rw [names, hentries]
    cases wellNamed_entry hwell hentries with
    | folder once proper inner =>
        rw [List.mem_append, hnames]
        constructor
        · rintro (hmem | hmem)
          · obtain ⟨name, hname, rfl⟩ := List.mem_map.mp hmem
            obtain ⟨hspecial, hown, hdenotes⟩ := mem_pointNames_iff.mp hname
            exact ⟨(hpoint hspecial).mpr hfolder, name, hdenotes, .inr ⟨hspecial, hown, rfl⟩⟩
          · obtain ⟨name, hname, rfl⟩ := List.mem_map.mp hmem
            obtain ⟨hname, hmatch⟩ := List.mem_filter.mp hname
            obtain ⟨⟨name, entry⟩, hnamed, rfl⟩ := List.mem_map.mp hname
            have hdenotes := (hchild (proper _ hnamed)).mpr (Named.lookup_of_mem once hnamed)
            exact ⟨exists?_of_entry hdenotes, name, NamePattern.matchName_iff.mp hmatch,
              .inl ⟨proper _ hnamed, rfl⟩⟩
        · rintro ⟨hexists, name, hdenotes, ⟨hname, rfl⟩ | ⟨hspecial, hown, rfl⟩⟩
          · obtain ⟨entry, hentry⟩ := entry_of_exists? hexists
            have hmem := Named.mem_of_lookup ((hchild hname).mp hentry)
            refine .inr (List.mem_map_of_mem (List.mem_filter.mpr ⟨?_, ?_⟩))
            · exact List.mem_map_of_mem hmem
            · exact NamePattern.matchName_iff.mpr hdenotes
          · exact .inl (List.mem_map_of_mem (mem_pointNames_iff.mpr ⟨hspecial, hown, hdenotes⟩))
  next hfolder =>
    refine ⟨nofun, ?_⟩
    rintro ⟨hexists, name, -, ⟨hname, rfl⟩ | ⟨hspecial, -, rfl⟩⟩
    · exact absurd (isFolder_of_exists?_child hpath hname.2.2.2 hexists) hfolder
    · exact absurd ((hpoint hspecial).mp hexists) hfolder

/-! ## Searching -/

theorem exists?_of_isFolder (h : fs.isFolder path = true) : fs.exists? path = true := by
  obtain ⟨entries, hentries⟩ := entry_of_isFolder h
  exact exists?_of_entry hentries

theorem text_under_ne {name : String} {found : FilePath} (h : path.Under name found)
    (hpath : path.text ≠ "") : found.text ≠ "" := by
  induction h with
  | entry proper => exact text_child_ne proper.1 hpath proper.2.2.2
  | deeper proper _ ih => exact ih (text_child_ne proper.1 hpath proper.2.2.2)

/-- Whoever follows a pattern to a path that exists never leaves what exists. -/
theorem exists?_of_leads {patterns : List NamePattern} {found : FilePath}
    (h : NamePattern.Leads patterns path found) (hsingle : NamePattern.SingleParts patterns)
    (hpath : path.text ≠ "") (hfound : fs.exists? found = true) : fs.exists? path = true := by
  induction h with
  | here => exact hfound
  | @literal text patterns path found written rest ih =>
      have hnext := ih hsingle.rest written hfound
      exact exists?_of_isFolder
        (isFolder_of_exists?_child hpath (hsingle text List.mem_cons_self) hnext)
  | entry proper denotes rest ih =>
      have hnext := ih hsingle.rest (text_child_ne proper.1 hpath proper.2.2.2) hfound
      exact exists?_of_isFolder (isFolder_of_exists?_child hpath proper.2.2.2 hnext)
  | point special own denotes rest ih =>
      have hslash := slash_notMem_point special
      have hnext := ih hsingle.rest
        (FilePath.text_join_ne hpath (FilePath.isAbsolute_single hslash)) hfound
      exact exists?_of_isFolder ((exists?_of_step_point special (reach_join hpath hslash)).mp hnext)
  | folders under => exact exists?_of_isFolder (isFolder_of_under hpath under hfound)
  | deeper under names rest ih =>
      have hnext := ih hsingle.rest.rest (text_under_ne under hpath) hfound
      exact exists?_of_isFolder (isFolder_of_under hpath under hnext)

/-- The folders inside a folder are found, at any depth. -/
theorem mem_below_iff (hwell : fs.WellNamed) (hpath : path.text ≠ "") {name : String}
    {found : FilePath} :
    (name, found) ∈ fs.below path ↔ path.Under name found ∧ fs.exists? found = true := by
  unfold below
  split
  next entry hentry => exact mem_inside_iff (wellNamed_entry hwell hentry) hpath hentry
  next fault hentry =>
    refine ⟨nofun, fun h => ?_⟩
    obtain ⟨entries, hentries⟩ := entry_of_isFolder (isFolder_of_under hpath h.1 h.2)
    rw [hentry] at hentries
    cases hentries

end FileSystem

namespace NamePattern

/-- Whether only folders are asked for: a double asterisk at the end stands for folders. -/
def WantsFolder (foldersOnly : Bool) (patterns : List NamePattern) : Prop :=
  foldersOnly = true ∨ patterns.getLast? = some .recursive

theorem wantsFolder_cons {foldersOnly : Bool} {pattern : NamePattern} (h : pattern ≠ .recursive)
    (patterns : List NamePattern) :
    WantsFolder foldersOnly (pattern :: patterns) ↔ WantsFolder foldersOnly patterns := by
  unfold WantsFolder
  cases patterns with
  | nil => simp [h]
  | cons next patterns => rw [List.getLast?_cons_cons]

end NamePattern

namespace FileSystem

/-- Whether a pattern leads from one path to another, and what is asked for is there. -/
structure Finds (fs : FileSystem) (foldersOnly : Bool) (patterns : List NamePattern)
    (path found : FilePath) : Prop where
  leads : NamePattern.Leads patterns path found
  exists_found : fs.exists? found = true
  folder : NamePattern.WantsFolder foldersOnly patterns → fs.isFolder found = true

section Expand

variable {fs : FileSystem} {foldersOnly : Bool} {patterns : List NamePattern}
  {path next found : FilePath}

/-- A path found by the rest of a pattern is found by the pattern. -/
theorem finds_cons {pattern : NamePattern} (h : pattern ≠ .recursive)
    (hfinds : fs.Finds foldersOnly patterns next found)
    (hleads : NamePattern.Leads (pattern :: patterns) path found) :
    fs.Finds foldersOnly (pattern :: patterns) path found :=
  ⟨hleads, hfinds.exists_found, fun hwants =>
    hfinds.folder ((NamePattern.wantsFolder_cons h patterns).mp hwants)⟩

/-- A path found by a pattern is found by the rest of it from the next folder on. -/
theorem Finds.rest {pattern : NamePattern}
    (hfinds : fs.Finds foldersOnly (pattern :: patterns) path found) (h : pattern ≠ .recursive)
    (hleads : NamePattern.Leads patterns next found) :
    fs.Finds foldersOnly patterns next found :=
  ⟨hleads, hfinds.exists_found, fun hwants =>
    hfinds.folder ((NamePattern.wantsFolder_cons h patterns).mpr hwants)⟩

/-! One case for each way in which a pattern starts, given that the search for the rest of it finds
what it is meant to from every path that exists. -/

/-- An empty pattern finds the path where it starts. -/
theorem mem_expand_nil_iff (hexists : fs.exists? path = true) :
    found ∈ fs.expand foldersOnly [] path ↔ fs.Finds foldersOnly [] path found := by
  have hhere : fs.Finds foldersOnly [] path found ↔
      found = path ∧ (foldersOnly = true → fs.isFolder path = true) := by
    constructor
    · rintro ⟨⟨⟩, -, hfolder⟩
      exact ⟨rfl, fun hwants => hfolder (.inl hwants)⟩
    · rintro ⟨rfl, hfolder⟩
      exact ⟨.here, hexists, fun hwants => hfolder (hwants.resolve_right nofun)⟩
  rw [expand, hhere]
  cases foldersOnly <;> cases fs.isFolder path <;> simp

/-- A recursive part at the end finds folders only. -/
theorem mem_expand_folders_iff (hwell : fs.WellNamed) (hpath : path.text ≠ "") :
    found ∈ fs.expand foldersOnly [.recursive] path ↔
      fs.Finds foldersOnly [.recursive] path found := by
  rw [expand, List.mem_filter, List.mem_map]
  constructor
  · rintro ⟨⟨⟨name, found⟩, hmem, rfl⟩, hfolder⟩
    obtain ⟨hunder, hfound⟩ := (mem_below_iff hwell hpath).mp hmem
    exact ⟨.folders hunder, hfound, fun _ => hfolder⟩
  · rintro ⟨hleads, hfound, hfolder⟩
    cases hleads with
    | folders under =>
        exact ⟨⟨_, (mem_below_iff hwell hpath).mpr ⟨under, hfound⟩, rfl⟩, hfolder (.inr rfl)⟩

/-- A recursive part goes on in the folder itself and in all folders inside it. -/
theorem mem_expand_deeper_iff (hwell : fs.WellNamed) {pattern : NamePattern}
    (hsingle : NamePattern.SingleParts patterns) (hpath : path.text ≠ "")
    (hrest : ∀ {next : FilePath}, fs.exists? next = true →
      (found ∈ fs.expand foldersOnly patterns next ↔ fs.Finds foldersOnly patterns next found)) :
    found ∈ fs.expand foldersOnly (.recursive :: pattern :: patterns) path ↔
      fs.Finds foldersOnly (.recursive :: pattern :: patterns) path found := by
  have hwants : pattern ≠ .recursive →
      (NamePattern.WantsFolder foldersOnly (.recursive :: pattern :: patterns) ↔
        NamePattern.WantsFolder foldersOnly patterns) := fun hne => by
    rw [← NamePattern.wantsFolder_cons hne patterns]
    rfl
  rw [expand, List.mem_flatMap]
  constructor
  · rintro ⟨⟨name, next⟩, hmem, hfound⟩
    obtain ⟨hmem, hmatch⟩ := List.mem_filter.mp hmem
    obtain ⟨hunder, hnext⟩ := (mem_below_iff hwell hpath).mp hmem
    have hname := NamePattern.matchName_iff.mp hmatch
    have hne : pattern ≠ .recursive := by rintro rfl; exact hname
    obtain ⟨hleads, hexists, hfolder⟩ := (hrest hnext).mp hfound
    exact ⟨.deeper hunder hname hleads, hexists, fun h => hfolder ((hwants hne).mp h)⟩
  · rintro ⟨hleads, hexists, hfolder⟩
    cases hleads with
    | @deeper _ _ _ next _ name under names rest =>
        have hne : pattern ≠ .recursive := by rintro rfl; exact names
        have hnext := exists?_of_leads rest hsingle (text_under_ne under hpath) hexists
        refine ⟨(name, next), List.mem_filter.mpr
          ⟨(mem_below_iff hwell hpath).mpr ⟨under, hnext⟩,
            NamePattern.matchName_iff.mpr names⟩, ?_⟩
        exact (hrest hnext).mpr ⟨rest, hexists, fun h => hfolder ((hwants hne).mpr h)⟩

/-- A literal part goes on in the entry of that name. -/
theorem mem_expand_literal_iff {text : String} (htext : '/' ∉ text.toList)
    (hsingle : NamePattern.SingleParts patterns) (hpath : path.text ≠ "")
    (hrest : ∀ {next : FilePath}, fs.exists? next = true →
      (found ∈ fs.expand foldersOnly patterns next ↔ fs.Finds foldersOnly patterns next found)) :
    found ∈ fs.expand foldersOnly (.literal text :: patterns) path ↔
      fs.Finds foldersOnly (.literal text :: patterns) path found := by
  rw [expand, List.mem_flatMap]
  simp only [Option.mem_toList, literal?_eq_some_iff hpath htext]
  constructor
  · rintro ⟨next, ⟨rfl, hnext⟩, hfound⟩
    have h := (hrest hnext).mp hfound
    exact finds_cons nofun h (.literal (text_ne_of_exists? hnext) h.leads)
  · rintro h
    cases h.leads with
    | literal written rest =>
        have hnext := exists?_of_leads rest hsingle written h.exists_found
        exact ⟨_, ⟨rfl, hnext⟩, (hrest hnext).mpr (h.rest nofun rest)⟩

/-- A part with wildcards goes on in every entry that it matches. -/
theorem mem_expand_wild_iff (hwell : fs.WellNamed) {wildcards : List Wildcard}
    (hsingle : NamePattern.SingleParts patterns) (hpath : path.text ≠ "")
    (hrest : ∀ {next : FilePath}, fs.exists? next = true →
      (found ∈ fs.expand foldersOnly patterns next ↔ fs.Finds foldersOnly patterns next found)) :
    found ∈ fs.expand foldersOnly (.wild wildcards :: patterns) path ↔
      fs.Finds foldersOnly (.wild wildcards :: patterns) path found := by
  rw [expand, List.mem_flatMap]
  simp only [mem_wild_iff hwell hpath]
  constructor
  · rintro ⟨next, ⟨hnext, name, hdenotes, ⟨hname, rfl⟩ | ⟨hspecial, hown, rfl⟩⟩, hfound⟩
    · have h := (hrest hnext).mp hfound
      exact finds_cons nofun h (.entry hname hdenotes h.leads)
    · have h := (hrest hnext).mp hfound
      exact finds_cons nofun h (.point hspecial hown hdenotes h.leads)
  · intro h
    cases h.leads with
    | @entry _ _ _ _ name proper denotes rest =>
        have hnext := exists?_of_leads rest hsingle
          (text_child_ne proper.1 hpath proper.2.2.2) h.exists_found
        exact ⟨_, ⟨hnext, name, denotes, .inl ⟨proper, rfl⟩⟩,
          (hrest hnext).mpr (h.rest nofun rest)⟩
    | @point _ _ _ _ name special own denotes rest =>
        have htext := FilePath.text_join_ne hpath
          (FilePath.isAbsolute_single (slash_notMem_point special))
        have hnext := exists?_of_leads rest hsingle htext h.exists_found
        exact ⟨_, ⟨hnext, name, denotes, .inr ⟨special, own, rfl⟩⟩,
          (hrest hnext).mpr (h.rest nofun rest)⟩

/-- Searching from a path finds what the pattern leads to and exists, and nothing else. -/
theorem mem_expand_iff (hwell : fs.WellNamed) : ∀ {patterns : List NamePattern} {path : FilePath},
    NamePattern.SingleParts patterns → path.text ≠ "" → (patterns = [] → fs.exists? path = true) →
      (found ∈ fs.expand foldersOnly patterns path ↔ fs.Finds foldersOnly patterns path found)
  | [], _, _, _, hexists => mem_expand_nil_iff (hexists rfl)
  | [.recursive], _, _, hpath, _ => mem_expand_folders_iff hwell hpath
  | .recursive :: _ :: _, _, hsingle, hpath, _ =>
      mem_expand_deeper_iff hwell hsingle.rest.rest hpath fun hnext =>
        mem_expand_iff hwell hsingle.rest.rest (text_ne_of_exists? hnext) fun _ => hnext
  | .literal text :: _, _, hsingle, hpath, _ =>
      mem_expand_literal_iff (hsingle text List.mem_cons_self) hsingle.rest hpath fun hnext =>
        mem_expand_iff hwell hsingle.rest (text_ne_of_exists? hnext) fun _ => hnext
  | .wild _ :: _, _, hsingle, hpath, _ =>
      mem_expand_wild_iff hwell hsingle.rest hpath fun hnext =>
        mem_expand_iff hwell hsingle.rest (text_ne_of_exists? hnext) fun _ => hnext

end Expand

end FileSystem

end ActionUnits
