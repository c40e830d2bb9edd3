import ActionUnits.Files.Tree

/-! # What a change of a file tree keeps and adds

Putting an entry where no folder stands changes that place only: folders stay
folders, with other entries perhaps, and every other file keeps its content. A
file or an empty folder that was put is all that is added.
-/

namespace ActionUnits.FileTree

def HasFolder (tree : FileTree) (location : Location) : Prop :=
  ∃ entries, tree.get? location = some (.folder entries)

/-- Whether a file with the given content stands at a location. -/
def HasFile (tree : FileTree) (location : Location) (content : ByteArray) : Prop :=
  tree.get? location = some (.file content)

/-- Folders stay, and so do files, except where the tree was changed. -/
structure Keeps (changed : Location → Prop) (before after : FileTree) : Prop where
  folder : ∀ {location}, before.HasFolder location → after.HasFolder location
  file : ∀ {location content}, ¬ changed location → before.HasFile location content →
    after.HasFile location content

namespace Keeps

variable {changed others : Location → Prop} {a b c : FileTree}

theorem refl (tree : FileTree) : Keeps changed tree tree :=
  ⟨id, fun _ => id⟩

theorem mono (h : Keeps changed a b) (hle : ∀ location, changed location → others location) :
    Keeps others a b :=
  ⟨h.folder, fun hother => h.file fun hchanged => hother (hle _ hchanged)⟩

/-- Changes may be made one after the other. -/
theorem trans (hab : Keeps changed a b) (hbc : Keeps changed b c) : Keeps changed a c :=
  ⟨hbc.folder ∘ hab.folder, fun hchanged => hbc.file hchanged ∘ hab.file hchanged⟩

end Keeps

/-- Files and folders were there before, apart from some at the given locations. -/
structure Adds (files folders : Location → Prop) (before after : FileTree) : Prop where
  file : ∀ {location content}, after.HasFile location content →
    files location ∨ before.HasFile location content
  folder : ∀ {location}, after.HasFolder location → folders location ∨ before.HasFolder location

namespace Adds

variable {files folders moreFiles moreFolders : Location → Prop} {a b c : FileTree}

theorem refl (tree : FileTree) : Adds files folders tree tree :=
  ⟨.inr, .inr⟩

theorem mono (h : Adds files folders a b) (hfiles : ∀ location, files location → moreFiles location)
    (hfolders : ∀ location, folders location → moreFolders location) :
    Adds moreFiles moreFolders a b :=
  ⟨fun hfile => (h.file hfile).imp_left (hfiles _),
    fun hfolder => (h.folder hfolder).imp_left (hfolders _)⟩

/-- Entries may be added one after the other. -/
theorem trans (hab : Adds files folders a b) (hbc : Adds files folders b c) :
    Adds files folders a c :=
  ⟨fun hfile => (hbc.file hfile).elim .inl hab.file,
    fun hfolder => (hbc.folder hfolder).elim .inl hab.folder⟩

end Adds

/-! ## Single entries -/

/-- What stands below an entry of a folder. -/
theorem get?_cons_of_folder {tree inner : FileTree} {name : String}
    (h : tree.lookup name = some (.folder inner)) (rest : Location) :
    tree.get? (name :: rest) = get? inner rest := by
  simp only [get?, h]

theorem get?_singleton (tree : FileTree) (name : String) : tree.get? [name] = tree.lookup name := by
  unfold get?
  cases tree.lookup name with
  | none => rfl
  | some entry => cases entry <;> rfl

/-- Only a folder has something below it. -/
theorem get?_cons_of_not_folder {tree : FileTree} {name : String}
    (h : ∀ inner, tree.lookup name ≠ some (.folder inner)) {rest : Location} (hrest : rest ≠ []) :
    tree.get? (name :: rest) = none := by
  unfold get?
  cases hname : tree.lookup name with
  | none => rfl
  | some entry =>
      cases entry with
      | file content => simp [hrest]
      | folder inner => exact absurd hname (h inner)

/-- What stands below another name stays. -/
theorem get?_set_of_ne {first name : String} (h : first ≠ name) (entry : FileEntry)
    (tree : FileTree) (rest : Location) :
    get? (Named.set name entry tree) (first :: rest) = tree.get? (first :: rest) := by
  simp only [get?, Named.lookup_set_of_ne h]

/-- A new entry of a folder, with no folder in its place. -/
theorem keeps_set {tree : FileTree} {name : String} (entry : FileEntry)
    (h : ∀ inner, tree.lookup name ≠ some (.folder inner)) :
    Keeps (· = [name]) tree (Named.set name entry tree) := by
  have hsame : ∀ {first rest found}, first :: rest ≠ [name] →
      tree.get? (first :: rest) = some found →
      get? (Named.set name entry tree) (first :: rest) = some found := by
    intro first rest found hne hfound
    by_cases hfirst : first = name
    · subst hfirst
      have hrest : rest ≠ [] := fun hrest => hne (hrest ▸ rfl)
      rw [get?_cons_of_not_folder h hrest] at hfound
      cases hfound
    · rw [get?_set_of_ne hfirst, hfound]
  constructor
  · rintro location ⟨entries, hfolder⟩
    cases location with
    | nil => exact ⟨_, rfl⟩
    | cons first rest =>
        refine ⟨entries, hsame (fun heq => ?_) hfolder⟩
        rw [heq, get?_singleton] at hfolder
        exact h entries hfolder
  · intro location content hne hfile
    cases location with
    | nil => cases hfile
    | cons first rest => exact hsame hne hfile

/-- A change inside of a folder. -/
theorem keeps_set_folder {tree inner after : FileTree} {name : String} {rest : Location}
    (hname : tree.lookup name = some (.folder inner)) (h : Keeps (· = rest) inner after) :
    Keeps (· = name :: rest) tree (Named.set name (.folder after) tree) := by
  have hself := Named.lookup_set_self name (FileEntry.folder after) tree
  constructor
  · rintro location ⟨entries, hfolder⟩
    cases location with
    | nil => exact ⟨_, rfl⟩
    | cons first others =>
        by_cases hfirst : first = name
        · subst hfirst
          rw [get?_cons_of_folder hname] at hfolder
          obtain ⟨found, hfound⟩ := h.folder ⟨entries, hfolder⟩
          exact ⟨found, by rw [get?_cons_of_folder hself, hfound]⟩
        · exact ⟨entries, by rw [get?_set_of_ne hfirst, hfolder]⟩
  · intro location content hne hfile
    cases location with
    | nil => cases hfile
    | cons first others =>
        by_cases hfirst : first = name
        · subst hfirst
          rw [HasFile, get?_cons_of_folder hname] at hfile
          rw [HasFile, get?_cons_of_folder hself]
          exact h.file (fun heq => hne (heq ▸ rfl)) hfile
        · rw [HasFile, get?_set_of_ne hfirst]
          exact hfile

/-! ## Entries at locations -/

/-- Something is put into the folder that its location leads through. -/
theorem put_cons_of_folder {tree inner : FileTree} {name : String} {rest : Location}
    (hname : tree.lookup name = some (.folder inner)) (hrest : rest ≠ []) (entry : FileEntry) :
    tree.put (name :: rest) entry = Named.set name (.folder (put inner rest entry)) tree := by
  cases rest with
  | nil => exact absurd rfl hrest
  | cons next others => simp only [put, hname]

/-- Where a location leads through no folder, nothing is put. -/
theorem put_cons_of_not_folder {tree : FileTree} {name : String} {rest : Location}
    (hname : ∀ inner, tree.lookup name ≠ some (.folder inner)) (hrest : rest ≠ [])
    (entry : FileEntry) : tree.put (name :: rest) entry = tree := by
  cases rest with
  | nil => exact absurd rfl hrest
  | cons next others =>
      unfold put
      split
      next inner hinner => exact absurd hinner (hname inner)
      next => rfl

/-- A new entry with no folder in its place changes nothing else. -/
theorem keeps_put (tree : FileTree) {location : Location} (entry : FileEntry)
    (h : ¬ tree.HasFolder location) : Keeps (· = location) tree (tree.put location entry) := by
  induction location generalizing tree with
  | nil => exact absurd ⟨tree, rfl⟩ h
  | cons name rest ih =>
      by_cases hrest : rest = []
      · subst hrest
        exact keeps_set entry fun inner hinner => h ⟨inner, by rw [get?_singleton, hinner]⟩
      · by_cases hname : ∃ inner, tree.lookup name = some (.folder inner)
        · obtain ⟨inner, hname⟩ := hname
          have hinner : ¬ HasFolder inner rest := by
            rintro ⟨entries, hentries⟩
            exact h ⟨entries, by rw [get?_cons_of_folder hname, hentries]⟩
          rw [put_cons_of_folder hname hrest]
          exact keeps_set_folder hname (ih inner hinner)
        · rw [put_cons_of_not_folder (not_exists.mp hname) hrest]
          exact .refl tree

/-- A file, or a folder with nothing in it. -/
inductive IsSingle : FileEntry → Prop
  | file (content : ByteArray) : IsSingle (.file content)
  | folder : IsSingle (.folder [])

theorem not_hasFile_nil (tree : FileTree) (content : ByteArray) : ¬ tree.HasFile [] content :=
  fun h => by cases h

/-- Nothing is below a single entry. -/
theorem adds_set {entry : FileEntry} (h : IsSingle entry) (tree : FileTree) (name : String) :
    Adds (fun location => location = [name] ∧ ∃ content, entry = .file content)
      (fun location => location = [name] ∧ entry = .folder []) tree
      (Named.set name entry tree) := by
  have hself := Named.lookup_set_self name entry tree
  have hbelow : ∀ {rest found}, get? (Named.set name entry tree) (name :: rest) = some found →
      rest = [] ∧ found = entry := by
    intro rest found hfound
    rw [get?, hself] at hfound
    cases rest with
    | nil => cases h <;> exact ⟨rfl, (Option.some.inj hfound).symm⟩
    | cons next others => cases h <;> cases hfound
  constructor
  · intro location content hfile
    cases location with
    | nil => exact absurd hfile (not_hasFile_nil _ _)
    | cons first rest =>
        by_cases hfirst : first = name
        · subst hfirst
          obtain ⟨rfl, hentry⟩ := hbelow hfile
          exact .inl ⟨rfl, content, hentry.symm⟩
        · rw [HasFile, get?_set_of_ne hfirst] at hfile
          exact .inr hfile
  · rintro location ⟨entries, hfolder⟩
    cases location with
    | nil => exact .inr ⟨tree, rfl⟩
    | cons first rest =>
        by_cases hfirst : first = name
        · subst hfirst
          obtain ⟨rfl, rfl⟩ := hbelow hfolder
          cases h
          exact .inl ⟨rfl, rfl⟩
        · rw [get?_set_of_ne hfirst] at hfolder
          exact .inr ⟨entries, hfolder⟩

/-- What is added inside a folder is added below its name. -/
theorem adds_set_folder {tree inner after : FileTree} {name : String}
    {files folders : Location → Prop}
    (hname : tree.lookup name = some (.folder inner)) (h : Adds files folders inner after) :
    Adds (fun location => ∃ rest, location = name :: rest ∧ files rest)
      (fun location => ∃ rest, location = name :: rest ∧ folders rest) tree
      (Named.set name (.folder after) tree) := by
  have hself := Named.lookup_set_self name (FileEntry.folder after) tree
  constructor
  · intro location content hfile
    cases location with
    | nil => exact absurd hfile (not_hasFile_nil _ _)
    | cons first rest =>
        by_cases hfirst : first = name
        · subst hfirst
          rw [HasFile, get?_cons_of_folder hself] at hfile
          rw [HasFile, get?_cons_of_folder hname]
          exact (h.file hfile).imp_left fun hrest => ⟨rest, rfl, hrest⟩
        · rw [HasFile, get?_set_of_ne hfirst] at hfile
          exact .inr hfile
  · rintro location ⟨entries, hfolder⟩
    cases location with
    | nil => exact .inr ⟨tree, rfl⟩
    | cons first rest =>
        by_cases hfirst : first = name
        · subst hfirst
          rw [get?_cons_of_folder hself] at hfolder
          rw [HasFolder, get?_cons_of_folder hname]
          exact (h.folder ⟨entries, hfolder⟩).imp_left fun hrest => ⟨rest, rfl, hrest⟩
        · rw [get?_set_of_ne hfirst] at hfolder
          exact .inr ⟨entries, hfolder⟩

/-- What was put is all that is added. -/
theorem adds_put (tree : FileTree) (location : Location) {entry : FileEntry} (h : IsSingle entry) :
    Adds (fun other => other = location ∧ ∃ content, entry = .file content)
      (fun other => other = location ∧ entry = .folder []) tree (tree.put location entry) := by
  induction location generalizing tree with
  | nil => exact .refl tree
  | cons name rest ih =>
      by_cases hrest : rest = []
      · subst hrest
        exact adds_set h tree name
      · by_cases hname : ∃ inner, tree.lookup name = some (.folder inner)
        · obtain ⟨inner, hname⟩ := hname
          rw [put_cons_of_folder hname hrest]
          refine (adds_set_folder hname (ih inner)).mono ?_ ?_
          · rintro _ ⟨_, rfl, rfl, hentry⟩
            exact ⟨rfl, hentry⟩
          · rintro _ ⟨_, rfl, rfl, hentry⟩
            exact ⟨rfl, hentry⟩
        · rw [put_cons_of_not_folder (not_exists.mp hname) hrest]
          exact .refl tree

/-- In a folder that exists, an entry stands where it was put. -/
theorem get?_put_self (tree : FileTree) {folder : Location} (h : tree.HasFolder folder)
    (name : String) (entry : FileEntry) :
    (tree.put (folder ++ [name]) entry).get? (folder ++ [name]) = some entry := by
  induction folder generalizing tree with
  | nil =>
      rw [List.nil_append, put, get?_singleton]
      exact Named.lookup_set_self name entry tree
  | cons first rest ih =>
      obtain ⟨entries, hentries⟩ := h
      by_cases hfirst : ∃ inner, tree.lookup first = some (.folder inner)
      · obtain ⟨inner, hfirst⟩ := hfirst
        rw [get?_cons_of_folder hfirst] at hentries
        rw [List.cons_append, put_cons_of_folder hfirst (by simp),
          get?_cons_of_folder (Named.lookup_set_self first _ tree)]
        exact ih inner ⟨entries, hentries⟩
      · have hnone := not_exists.mp hfirst
        by_cases hrest : rest = []
        · rw [hrest, get?_singleton] at hentries
          exact absurd hentries (hnone entries)
        · rw [get?_cons_of_not_folder hnone hrest] at hentries
          cases hentries

end ActionUnits.FileTree
