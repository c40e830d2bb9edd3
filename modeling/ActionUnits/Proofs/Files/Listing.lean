import ActionUnits.Proofs.Files.Matching
import ActionUnits.Proofs.Files.Ordering

/-! # Listing folders in another order

In which order a folder lists its entries depends on the disk. File systems with the same content
agree on what paths denote, and searching them finds the same paths, in another order perhaps. Paths
with the same components are found in the same order, though: those below different entries of one
folder have different components, and a folder is found before what it contains. Sorting the paths
therefore gives the same list.
-/

namespace ActionUnits

/-! ## The same content -/

/-- The same files and folders, perhaps listed in another order. -/
inductive FileEntry.Alike : FileEntry → FileEntry → Prop
  | file (content : ByteArray) : Alike (.file content) (.file content)
  | folder {entries others : List (String × FileEntry)}
      (names : ∀ name, name ∈ entries.map (·.1) ↔ name ∈ others.map (·.1))
      (inner : ∀ name entry other, entries.lookup name = some entry →
        others.lookup name = some other → Alike entry other) :
      Alike (.folder entries) (.folder others)

namespace FileEntry.Alike

theorem symm {entry other : FileEntry} (h : entry.Alike other) : other.Alike entry := by
  induction h with
  | file content => exact .file content
  | folder names _ ih =>
      exact .folder (fun name => (names name).symm) fun name entry other hentry hother =>
        ih name other entry hother hentry

theorem isSome_lookup_iff {entries : List (String × FileEntry)} {name : String} :
    (entries.lookup name).isSome = true ↔ name ∈ entries.map (·.1) := by
  simp [List.lookup_isSome_iff]

/-- Folders that are alike have alike entries under each name. -/
theorem lookup {entries others : List (String × FileEntry)}
    (h : (FileEntry.folder entries).Alike (.folder others)) (name : String) :
    Option.Rel FileEntry.Alike (entries.lookup name) (others.lookup name) := by
  cases h with
  | folder names inner =>
      have hsome : (entries.lookup name).isSome = true ↔ (others.lookup name).isSome = true := by
        rw [isSome_lookup_iff, isSome_lookup_iff, names]
      cases hentry : entries.lookup name <;> cases hother : others.lookup name <;>
        simp only [hentry, hother, Option.isSome_none, Option.isSome_some, iff_false, iff_true,
          not_true_eq_false, Bool.false_eq_true] at hsome
      · exact .none
      · exact .some (inner name _ _ hentry hother)

theorem refl {entry : FileEntry} (h : entry.WellNamed) : entry.Alike entry := by
  induction h with
  | file content => exact .file content
  | folder once names inner ih =>
      refine .folder (fun name => .rfl) fun name entry other hentry hother => ?_
      rw [hentry] at hother
      cases hother
      exact ih _ (Named.mem_of_lookup hentry)

/-- A folder that lists its entries in another order has the same content. -/
theorem of_perm {entries others : List (String × FileEntry)}
    (h : (FileEntry.folder entries).WellNamed) (hperm : entries.Perm others) :
    (FileEntry.folder entries).Alike (.folder others) := by
  cases h with
  | folder once names inner =>
      refine .folder (fun name => (hperm.map (·.1)).mem_iff) fun name entry other hentry hother => ?_
      have hmem := Named.mem_of_lookup hentry
      have once' : (others.map (·.1)).Nodup := (hperm.map (·.1)).nodup once
      rw [Named.lookup_of_mem once' (hperm.mem_iff.mp hmem)] at hother
      cases hother
      exact .refl (inner _ hmem)

end FileEntry.Alike

/-- The names in a folder stay well formed in another order. -/
theorem FileEntry.WellNamed.of_perm {entries others : List (String × FileEntry)}
    (h : (FileEntry.folder entries).WellNamed) (hperm : entries.Perm others) :
    (FileEntry.folder others).WellNamed := by
  cases h with
  | folder once names inner =>
      exact .folder ((hperm.map (·.1)).nodup once) (fun named hnamed => names named
        (hperm.mem_iff.mpr hnamed)) fun named hnamed => inner named (hperm.mem_iff.mpr hnamed)

/-- Alike trees have alike entries at each location. -/
theorem FileTree.get?_alike {tree other : FileTree}
    (h : (FileEntry.folder tree).Alike (.folder other)) (location : Location) :
    Option.Rel FileEntry.Alike (tree.get? location) (other.get? location) := by
  induction location generalizing tree other with
  | nil => exact .some h
  | cons name rest ih =>
      have hlookup := h.lookup name
      unfold get?
      generalize tree.lookup name = entry at hlookup
      generalize other.lookup name = entry' at hlookup
      cases hlookup with
      | none => exact .none
      | some halike =>
          cases halike with
          | file content =>
              dsimp only
              split
              · exact .some (.file content)
              · exact .none
          | folder names inner => exact ih (.folder names inner)

/-- File systems with the same content, in which folders may list it in different orders. -/
structure FileSystem.Alike (fs other : FileSystem) : Prop where
  workFolder : other.workFolder = fs.workFolder
  tree : (FileEntry.folder fs.tree).Alike (.folder other.tree)

namespace FileSystem.Alike

variable {fs other : FileSystem}

theorem symm (h : fs.Alike other) : other.Alike fs :=
  ⟨h.workFolder.symm, h.tree.symm⟩

theorem step (h : fs.Alike other) (here : Location) (part : List Char) :
    other.step here part = fs.step here part := by
  have hget := FileTree.get?_alike h.tree here
  unfold FileSystem.step
  generalize fs.tree.get? here = entry at hget
  generalize other.tree.get? here = entry' at hget
  cases hget with
  | none => rfl
  | some halike => cases halike <;> rfl

/-- A path leads to the same location in alike trees. -/
theorem reach (h : fs.Alike other) (path : FilePath) : other.reach path = fs.reach path := by
  have hstep : other.step = fs.step := funext fun here => funext fun part => h.step here part
  simp only [FileSystem.reach, follow, start, hstep, h.workFolder]

/-- What a path denotes in alike trees is alike. -/
theorem entry (h : fs.Alike other) {path : FilePath} {found : FileEntry}
    (hfound : fs.entry path = .ok found) :
    ∃ found', other.entry path = .ok found' ∧ found.Alike found' := by
  obtain ⟨location, hreach, hget⟩ := entry_eq_ok_iff.mp hfound
  have hsame := FileTree.get?_alike h.tree location
  rw [hget] at hsame
  cases hother : other.tree.get? location with
  | none =>
      rw [hother] at hsame
      cases hsame
  | some found' =>
      rw [hother] at hsame
      cases hsame with
      | some halike =>
          exact ⟨found', entry_eq_ok_iff.mpr ⟨location, (h.reach path).trans hreach, hother⟩, halike⟩

theorem exists? (h : fs.Alike other) (path : FilePath) : other.exists? path = fs.exists? path := by
  have hof : ∀ {a b : FileSystem}, a.Alike b → a.exists? path = true → b.exists? path = true := by
    intro a b hab ha
    obtain ⟨found, hfound⟩ := entry_of_exists? ha
    obtain ⟨found', hfound', -⟩ := hab.entry hfound
    exact exists?_of_entry hfound'
  exact Bool.eq_iff_iff.mpr ⟨hof h.symm, hof h⟩

theorem isFolder (h : fs.Alike other) (path : FilePath) :
    other.isFolder path = fs.isFolder path := by
  have hof : ∀ {a b : FileSystem}, a.Alike b → a.isFolder path = true →
      b.isFolder path = true := by
    intro a b hab ha
    obtain ⟨entries, hentries⟩ := entry_of_isFolder ha
    obtain ⟨found, hfound, halike⟩ := hab.entry hentries
    cases halike
    rw [FileSystem.isFolder, hfound]
  exact Bool.eq_iff_iff.mpr ⟨hof h.symm, hof h⟩

end FileSystem.Alike

/-! ## Where paths are found -/

section Prefixes

variable {path found : FilePath}

/-- What is in a folder lies below the components of the folder. -/
theorem FilePath.prefix_child {name : String} (h : '/' ∉ name.toList) :
    path.innerComponents <+: (path.child name).innerComponents := by
  rw [FilePath.innerComponents_child h]
  exact List.prefix_append _ _

/-- Everything below a path goes on from it. -/
theorem prefix_inside {entry : FileEntry} (hwell : entry.WellNamed) {named : String × FilePath}
    (h : named ∈ entry.inside path) : path.innerComponents <+: named.2.innerComponents := by
  induction hwell generalizing path with
  | file content =>
      rw [FileEntry.inside] at h
      cases h
  | @folder entries once names inner ih =>
      rw [FileEntry.inside, FileSystem.insideAll_eq_flatMap] at h
      obtain ⟨entry, hentry, h⟩ := List.mem_flatMap.mp h
      have hchild : path.innerComponents <+: (path.child entry.1).innerComponents :=
        FilePath.prefix_child (names entry hentry).2.2.2
      rcases List.mem_cons.mp h with rfl | h
      · exact hchild
      · exact hchild.trans (ih entry hentry h)

/-- What is found inside a folder lies below the components of the folder. -/
theorem FileSystem.prefix_below {fs : FileSystem} (hwell : fs.WellNamed)
    {named : String × FilePath} (h : named ∈ fs.below path) :
    path.innerComponents <+: named.2.innerComponents := by
  unfold FileSystem.below at h
  split at h
  next entry hentry => exact prefix_inside (FileSystem.wellNamed_entry hwell hentry) h
  next => cases h

theorem FileSystem.eq_child_of_literal? {fs : FileSystem} {text : String}
    (h : fs.literal? path text = some found) : found = path.child text := by
  rw [FileSystem.literal?] at h
  exact (Option.some.inj (Option.ite_none_right_eq_some.mp h).2).symm

theorem FileSystem.isEntryName_of_mem_names {fs : FileSystem} (hwell : fs.WellNamed)
    {name : String} (h : name ∈ fs.names path) : IsEntryName name := by
  unfold FileSystem.names at h
  split at h
  next entries hentries =>
    obtain ⟨named, hnamed, rfl⟩ := List.mem_map.mp h
    cases FileSystem.wellNamed_entry hwell hentries with
    | folder once names inner => exact names named hnamed
  next => cases h

theorem FileSystem.prefix_wild {fs : FileSystem} (hwell : fs.WellNamed)
    {wildcards : List Wildcard} (h : found ∈ fs.wild path (.wild wildcards)) :
    path.innerComponents <+: found.innerComponents := by
  unfold FileSystem.wild at h
  split at h
  · rcases List.mem_append.mp h with hpoint | hname
    · obtain ⟨name, hname, rfl⟩ := List.mem_map.mp hpoint
      have hslash := FileSystem.slash_notMem_point (FileSystem.mem_pointNames_iff.mp hname).1
      rw [FilePath.innerComponents_join path (FilePath.isAbsolute_single hslash)]
      exact List.prefix_append _ _
    · obtain ⟨name, hmem, rfl⟩ := List.mem_map.mp hname
      exact FilePath.prefix_child
        (FileSystem.isEntryName_of_mem_names hwell (List.mem_filter.mp hmem).1).2.2.2
  · cases h

/-- Whatever is found goes on from where the search began. -/
theorem FileSystem.prefix_expand {fs : FileSystem} (hwell : fs.WellNamed) {foldersOnly : Bool} :
    ∀ {patterns : List NamePattern} {path : FilePath}, NamePattern.SingleParts patterns →
      found ∈ fs.expand foldersOnly patterns path → path.innerComponents <+: found.innerComponents
  | [], path, _, h => by
      rw [FileSystem.expand] at h
      split at h
      · cases h
      · exact List.mem_singleton.mp h ▸ List.prefix_refl _
  | [.recursive], path, _, h => by
      rw [FileSystem.expand] at h
      obtain ⟨named, hnamed, rfl⟩ := List.mem_map.mp (List.mem_filter.mp h).1
      exact FileSystem.prefix_below hwell hnamed
  | .recursive :: pattern :: patterns, path, hsingle, h => by
      rw [FileSystem.expand] at h
      obtain ⟨named, hnamed, h⟩ := List.mem_flatMap.mp h
      exact (FileSystem.prefix_below hwell (List.mem_filter.mp hnamed).1).trans
        (FileSystem.prefix_expand hwell hsingle.rest.rest h)
  | .literal text :: patterns, path, hsingle, h => by
      rw [FileSystem.expand] at h
      obtain ⟨next, hnext, h⟩ := List.mem_flatMap.mp h
      have hchild := FileSystem.eq_child_of_literal? (Option.mem_toList.mp hnext)
      exact (hchild ▸ FilePath.prefix_child (hsingle text List.mem_cons_self)).trans
        (FileSystem.prefix_expand hwell hsingle.rest h)
  | .wild wildcards :: patterns, path, hsingle, h => by
      rw [FileSystem.expand] at h
      obtain ⟨next, hnext, h⟩ := List.mem_flatMap.mp h
      exact (FileSystem.prefix_wild hwell hnext).trans
        (FileSystem.prefix_expand hwell hsingle.rest h)

end Prefixes

/-! ## Searching -/

open FilePath (SameClasses)

/-- A list of named entries by its names. -/
theorem flatMap_eq_names {β : Type} {entries : List (String × FileEntry)}
    (once : (entries.map (·.1)).Nodup) (f : String × FileEntry → List β) :
    entries.flatMap f = (entries.map (·.1)).flatMap fun name =>
      (entries.lookup name).toList.flatMap fun entry => f (name, entry) := by
  rw [List.flatMap_map]
  refine List.flatMap_congr fun named hnamed => ?_
  rw [Named.lookup_of_mem once hnamed]
  simp

/-- What is found at an entry of a folder, and then below it. -/
def foundAt (path : FilePath) (f : String × FilePath → List FilePath) (name : String)
    (entry : FileEntry) : List FilePath :=
  f (name, path.child name) ++ (entry.inside (path.child name)).flatMap f

/-- What is found inside a folder is found under its names, each name by itself. -/
theorem flatMap_inside {entries : List (String × FileEntry)} (once : (entries.map (·.1)).Nodup)
    (path : FilePath) (f : String × FilePath → List FilePath) :
    ((FileEntry.folder entries).inside path).flatMap f =
      (entries.map (·.1)).flatMap fun name =>
        (entries.lookup name).toList.flatMap (foundAt path f name) := by
  rw [FileEntry.inside, FileSystem.insideAll_eq_flatMap, List.flatMap_assoc, flatMap_eq_names once]
  rfl

section Blocks

variable {path : FilePath} {f : String × FilePath → List FilePath}

/-- What is found under a name lies below the component of that name. -/
theorem prefix_foundAt (hbehind : ∀ named, ∀ found ∈ f named,
      named.2.innerComponents <+: found.innerComponents) {name : String} {entry : FileEntry}
    (hwell : entry.WellNamed) {found : FilePath} (h : found ∈ foundAt path f name entry) :
    (path.child name).innerComponents <+: found.innerComponents := by
  rcases List.mem_append.mp h with h | h
  · exact hbehind (name, path.child name) found h
  · obtain ⟨named, hnamed, h⟩ := List.mem_flatMap.mp h
    exact (prefix_inside hwell hnamed).trans (hbehind named found h)

/-- Paths that go on from different entries of a folder have different components. -/
theorem components_ne_of_prefix_child {name other : String} (hname : IsEntryName name)
    (hother : IsEntryName other) (hne : name ≠ other) {a b : FilePath}
    (ha : (path.child name).innerComponents <+: a.innerComponents)
    (hb : (path.child other).innerComponents <+: b.innerComponents) :
    a.components ≠ b.components := by
  intro hsame
  rw [FilePath.innerComponents_of_components hsame] at ha
  rw [FilePath.innerComponents_child hname.2.2.2, FileSystem.component?_entryName hname] at ha
  rw [FilePath.innerComponents_child hother.2.2.2, FileSystem.component?_entryName hother] at hb
  have heq := (List.prefix_of_prefix_length_le ha hb (by simp)).eq_of_length (by simp)
  have hlast := List.append_cancel_left heq
  simp only [Option.toList_some, List.cons.injEq, Component.normal.injEq, and_true] at hlast
  exact hne hlast

/-- The order of the entries of a folder does not matter: what is found at different ones has
different components. -/
theorem sameClasses_inside {entry other : FileEntry} (halike : entry.Alike other)
    (hentry : entry.WellNamed) (hother : other.WellNamed) {g : String × FilePath → List FilePath}
    (hbehind : ∀ named, ∀ found ∈ f named,
      named.2.innerComponents <+: found.innerComponents)
    (hfg : ∀ named, SameClasses (f named) (g named)) :
    SameClasses ((entry.inside path).flatMap f) ((other.inside path).flatMap g) := by
  induction halike generalizing path with
  | file content => exact .refl _
  | @folder entries others names inner ih =>
      have hlookup := (FileEntry.Alike.folder names inner).lookup
      cases hentry with
      | folder once proper wellNamed =>
        cases hother with
        | folder once' proper' wellNamed' =>
            rw [flatMap_inside once, flatMap_inside once']
            -- Both folders have the same names; what is found below different ones has different
            -- components, so their order does not matter.
            refine (SameClasses.flatMap_perm ((List.perm_ext_iff_of_nodup once once').mpr names)
              fun name hname other hother hne a ha b hb => ?_).trans
              (.flatMap_congr fun name hname => ?_)
            · obtain ⟨e, he, ha⟩ := List.mem_flatMap.mp ha
              obtain ⟨e', he', hb⟩ := List.mem_flatMap.mp hb
              have hmem := Named.mem_of_lookup (Option.mem_toList.mp he)
              have hmem' := Named.mem_of_lookup (Option.mem_toList.mp he')
              exact components_ne_of_prefix_child (proper _ hmem) (proper _ hmem') hne
                (prefix_foundAt hbehind (wellNamed _ hmem) ha)
                (prefix_foundAt hbehind (wellNamed _ hmem') hb)
            · have hsame := hlookup name
              generalize he : entries.lookup name = e at hsame
              generalize he' : others.lookup name = e' at hsame
              cases hsame with
              | none => exact .refl _
              | @some e e' =>
                  simp only [Option.toList_some, List.flatMap_cons, List.flatMap_nil,
                    List.append_nil]
                  exact (hfg _).append (ih name e e' he he'
                    (wellNamed _ (Named.mem_of_lookup he))
                    (wellNamed' _ (Named.mem_of_lookup he')))

theorem flatMap_filter {α β : Type} (as : List α) (test : α → Bool) (g : α → List β) :
    (as.filter test).flatMap g = as.flatMap fun a => if test a then g a else [] := by
  induction as with
  | nil => rfl
  | cons a as ih => by_cases h : test a <;> simp [h, ih]

end Blocks

namespace FileSystem.Alike

variable {fs other : FileSystem} {path : FilePath}

/-- What is found in the folders inside a folder is the same in alike trees, up to the order of
different components. -/
theorem sameClasses_below (halike : fs.Alike other) (hfs : fs.WellNamed) (hother : other.WellNamed)
    {f g : String × FilePath → List FilePath}
    (hbehind : ∀ named, ∀ found ∈ f named,
      named.2.innerComponents <+: found.innerComponents)
    (hfg : ∀ named, SameClasses (f named) (g named)) :
    SameClasses ((fs.below path).flatMap f) ((other.below path).flatMap g) := by
  unfold FileSystem.below
  cases hentry : fs.entry path with
  | ok entry =>
      obtain ⟨entry', hentry', hsame⟩ := halike.entry hentry
      rw [hentry']
      exact sameClasses_inside hsame (wellNamed_entry hfs hentry) (wellNamed_entry hother hentry')
        hbehind hfg
  | error fault =>
      cases hentry' : other.entry path with
      | error fault' => exact .refl _
      | ok entry' =>
          obtain ⟨entry, hentry'', -⟩ := halike.symm.entry hentry'
          rw [hentry] at hentry''
          cases hentry''

/-- Alike folders list the same names. -/
theorem perm_names (halike : fs.Alike other) (hfs : fs.WellNamed) (hother : other.WellNamed)
    (path : FilePath) : (fs.names path).Perm (other.names path) := by
  have hnames : ∀ {a : FileSystem} {entries : List (String × FileEntry)},
      a.entry path = .ok (.folder entries) → a.names path = entries.map (·.1) := by
    intro a entries hentries
    rw [names, hentries]
  have hnil : ∀ {a : FileSystem}, a.isFolder path = false → a.names path = [] := by
    intro a ha
    unfold names
    split
    next entries hentries =>
      rw [FileSystem.isFolder, hentries] at ha
      cases ha
    next => rfl
  cases hfolder : fs.isFolder path with
  | false => rw [hnil hfolder, hnil ((halike.isFolder path).trans hfolder)]
  | true =>
      obtain ⟨entries, hentries⟩ := entry_of_isFolder hfolder
      obtain ⟨entry', hentry', hsame⟩ := halike.entry hentries
      cases hsame with
      | folder names inner =>
          cases wellNamed_entry hfs hentries with
          | folder once =>
            cases wellNamed_entry hother hentry' with
            | folder once' =>
                rw [hnames hentries, hnames hentry']
                exact (List.perm_ext_iff_of_nodup once once').mpr names

/-- What is found under the names of a folder is the same in alike trees, up to the order of
different components. -/
theorem sameClasses_names (halike : fs.Alike other) (hfs : fs.WellNamed) (hother : other.WellNamed)
    (test : String → Bool) {f g : FilePath → List FilePath}
    (hbehind : ∀ next, ∀ found ∈ f next, next.innerComponents <+: found.innerComponents)
    (hfg : ∀ next, SameClasses (f next) (g next)) :
    SameClasses ((((fs.names path).filter test).map path.child).flatMap f)
      ((((other.names path).filter test).map path.child).flatMap g) := by
  rw [List.flatMap_map, List.flatMap_map]
  refine (SameClasses.flatMap_perm ((halike.perm_names hfs hother path).filter test)
    fun name hname other hother hne a ha b hb => ?_).trans (.flatMap_congr fun name _ => hfg _)
  exact components_ne_of_prefix_child
    (isEntryName_of_mem_names hfs (List.mem_filter.mp hname).1)
    (isEntryName_of_mem_names hfs (List.mem_filter.mp hother).1) hne (hbehind _ a ha)
    (hbehind _ b hb)

/-- File systems with the same content are searched with the same results, and in both those with
the same components have the same order. -/
theorem sameClasses_expand (halike : fs.Alike other) (hfs : fs.WellNamed)
    (hother : other.WellNamed) {foldersOnly : Bool} :
    ∀ {patterns : List NamePattern} {path : FilePath}, NamePattern.SingleParts patterns →
      SameClasses (fs.expand foldersOnly patterns path) (other.expand foldersOnly patterns path)
  | [], path, _ => by
      rw [FileSystem.expand, FileSystem.expand, halike.isFolder]
      exact .refl _
  | [.recursive], path, _ => by
      rw [FileSystem.expand, FileSystem.expand, List.map_eq_flatMap, List.map_eq_flatMap,
        funext halike.isFolder]
      refine (halike.sameClasses_below hfs hother (fun named found hfound => ?_)
        fun named => .refl _).filter _
      exact List.mem_singleton.mp hfound ▸ List.prefix_refl _
  | .recursive :: pattern :: patterns, path, hsingle => by
      rw [FileSystem.expand, FileSystem.expand, flatMap_filter, flatMap_filter]
      refine halike.sameClasses_below hfs hother (fun named found hfound => ?_) fun named => ?_
      · split at hfound
        · exact prefix_expand hfs hsingle.rest.rest hfound
        · cases hfound
      · split
        · exact halike.sameClasses_expand hfs hother hsingle.rest.rest
        · exact .refl _
  | .literal text :: patterns, path, hsingle => by
      have hliteral : other.literal? path text = fs.literal? path text := by
        simp only [literal?, halike.isFolder, halike.exists?]
      rw [FileSystem.expand, FileSystem.expand, hliteral]
      exact .flatMap_congr fun next _ => halike.sameClasses_expand hfs hother hsingle.rest
  | .wild wildcards :: patterns, path, hsingle => by
      rw [FileSystem.expand, FileSystem.expand, FileSystem.wild, FileSystem.wild, halike.isFolder]
      split
      · rw [List.flatMap_append, List.flatMap_append]
        refine .append (.flatMap_congr fun next _ => ?_)
          (halike.sameClasses_names hfs hother _ (fun next found hfound => ?_) fun next => ?_)
        · exact halike.sameClasses_expand hfs hother hsingle.rest
        · exact prefix_expand hfs hsingle.rest hfound
        · exact halike.sameClasses_expand hfs hother hsingle.rest
      · exact .refl _

end FileSystem.Alike

end ActionUnits
