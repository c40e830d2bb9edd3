import ActionUnits.Proofs.Files.Containment
import ActionUnits.Proofs.Files.Tree

/-! # What writing units does to a file system

A path that can be followed leads to a location that its components alone
determine. Writing a file puts its content at that location, or a beginning of it
if the write stops half way, and making the folders on the way adds folders where
nothing stood, so every other file keeps its content. Written units whose
locations differ are all there at the end.
-/

namespace ActionUnits

open Text

namespace FileTree

/-- A folder lies in folders. -/
theorem HasFolder.of_append {tree : FileTree} {outer inner : Location}
    (h : tree.HasFolder (outer ++ inner)) : tree.HasFolder outer := by
  induction outer generalizing tree with
  | nil => exact ⟨tree, rfl⟩
  | cons name rest ih =>
      obtain ⟨entries, hentries⟩ := h
      by_cases hname : ∃ folder, tree.lookup name = some (.folder folder)
      · obtain ⟨folder, hname⟩ := hname
        rw [List.cons_append, get?_cons_of_folder hname] at hentries
        obtain ⟨found, hfound⟩ := ih ⟨entries, hentries⟩
        exact ⟨found, by rw [get?_cons_of_folder hname, hfound]⟩
      · have hnone := not_exists.mp hname
        by_cases hlast : rest ++ inner = []
        · rw [List.cons_append, hlast, get?_singleton] at hentries
          exact absurd hentries (hnone entries)
        · rw [List.cons_append, get?_cons_of_not_folder hnone hlast] at hentries
          cases hentries

end FileTree

namespace FilePath

/-- A path that does not end with a slash ends with a part. -/
theorem dropTrailing_parts {path : FilePath} (hempty : path.text.isEmpty = false)
    (hslash : path.text.toList.getLast? ≠ some '/') :
    ∃ parts last, path.parts = parts ++ [last] ∧ last ≠ [] ∧
      dropTrailing List.isEmpty path.parts = path.parts := by
  obtain ⟨c, hc⟩ : ∃ c, path.text.toList.getLast? = some c := by
    cases hlast : path.text.toList.getLast? with
    | none =>
        have hnil := String.toList_eq_nil_iff.mp (List.getLast?_eq_none_iff.mp hlast)
        simp [hnil] at hempty
    | some c => exact ⟨c, rfl⟩
  obtain ⟨before, hbefore⟩ := List.getLast?_eq_some_iff.mp hc
  have hne : '/' ∉ [c] := by
    rw [List.mem_singleton]
    rintro rfl
    exact hslash hc
  obtain ⟨parts, last, -, hparts⟩ := splitAll_append_of_notMem hne before
  refine ⟨parts, last ++ [c], by rw [FilePath.parts, hbefore, hparts], by simp, ?_⟩
  rw [FilePath.parts, hbefore, hparts]
  simp [dropTrailing]

theorem filterMap_dropTrailing (parts : List (List Char)) :
    (dropTrailing List.isEmpty parts).filterMap component? = parts.filterMap component? := by
  unfold dropTrailing
  have h : ∀ rev : List (List Char),
      (rev.dropWhile List.isEmpty).filterMap component? = rev.filterMap component? := by
    intro rev
    induction rev with
    | nil => rfl
    | cons part rest ih =>
        by_cases hpart : part = []
        · simp [hpart, component?, ih]
        · simp [hpart]
  rw [List.filterMap_reverse, h, List.filterMap_reverse, List.reverse_reverse]

end FilePath

namespace FileSystem

def walk (here : Location) : Component → Location
  | .normal name => here ++ [name]
  | .parent => here.dropLast
  | _ => here

def locate (fs : FileSystem) (path : FilePath) : Location :=
  path.innerComponents.foldl walk (fs.start path)

/-- Folders stay, and so do files, except where the file system was changed. -/
structure Keeps (changed : Location → Prop) (before after : FileSystem) : Prop where
  workFolder : after.workFolder = before.workFolder
  tree : FileTree.Keeps changed before.tree after.tree

namespace Keeps

variable {changed others : Location → Prop} {a b c : FileSystem}

theorem refl (fs : FileSystem) : Keeps changed fs fs :=
  ⟨rfl, .refl fs.tree⟩

theorem mono (h : Keeps changed a b) (hle : ∀ location, changed location → others location) :
    Keeps others a b :=
  ⟨h.workFolder, h.tree.mono hle⟩

/-- Changes may be made one after the other. -/
theorem trans (hab : Keeps changed a b) (hbc : Keeps changed b c) : Keeps changed a c :=
  ⟨hbc.workFolder.trans hab.workFolder, hab.tree.trans hbc.tree⟩

theorem locate (h : Keeps changed a b) (path : FilePath) : b.locate path = a.locate path := by
  simp only [FileSystem.locate, start, h.workFolder]

end Keeps

/-! ## Following paths -/

/-- A step starts in a folder and leads where its component says. -/
theorem step_eq_ok_iff {fs : FileSystem} {here there : Location} {part : List Char} :
    fs.step here part = .ok there ↔
      fs.tree.HasFolder here ∧ there = (FilePath.component? part).elim here (walk here) := by
  have hwalk : ∀ entries : List (String × FileEntry), fs.tree.get? here = some (.folder entries) →
      fs.step here part = .ok ((FilePath.component? part).elim here (walk here)) := by
    intro entries hentries
    simp only [step, hentries, FilePath.component?]
    by_cases hstay : (part.isEmpty || part == ['.']) = true
    · simp [hstay]
    · by_cases hup : (part == ['.', '.']) = true
      · simp [hstay, hup, walk]
      · simp [hstay, hup, walk]
  constructor
  · intro h
    cases hentry : fs.tree.get? here with
    | none => simp [step, hentry] at h
    | some entry =>
        cases entry with
        | file content => simp [step, hentry] at h
        | folder entries =>
            rw [hwalk entries hentry] at h
            exact ⟨⟨entries, hentry⟩, (Except.ok.inj h).symm⟩
  · rintro ⟨⟨entries, hentries⟩, rfl⟩
    exact hwalk entries hentries

/-- A way that can be gone stays open, and leads to the same place. -/
theorem foldlM_step_of_keeps {changed : Location → Prop} {fs after : FileSystem}
    (h : Keeps changed fs after) {parts : List (List Char)} {here there : Location}
    (hfollow : parts.foldlM fs.step here = .ok there) :
    parts.foldlM after.step here = .ok there ∧
      there = (parts.filterMap FilePath.component?).foldl walk here := by
  induction parts generalizing here with
  | nil =>
      cases hfollow
      exact ⟨rfl, rfl⟩
  | cons part parts ih =>
      rw [List.foldlM_cons] at hfollow ⊢
      cases hstep : fs.step here part with
      | error fault => rw [hstep] at hfollow; cases hfollow
      | ok next =>
          rw [hstep] at hfollow
          obtain ⟨hfolder, hnext⟩ := step_eq_ok_iff.mp hstep
          rw [step_eq_ok_iff.mpr ⟨h.tree.folder hfolder, hnext⟩]
          obtain ⟨hrest, hthere⟩ := ih hfollow
          refine ⟨hrest, ?_⟩
          rw [hthere, hnext, List.filterMap_cons]
          cases FilePath.component? part <;> rfl

/-- Paths lead where they led before changes. -/
theorem follow_of_keeps {changed : Location → Prop} {fs after : FileSystem}
    (h : Keeps changed fs after) {path : FilePath} {parts : List (List Char)} {there : Location}
    (hfollow : fs.follow path parts = .ok there) :
    after.follow path parts = .ok there ∧
      there = (parts.filterMap FilePath.component?).foldl walk (fs.start path) := by
  unfold follow at hfollow ⊢
  split at hfollow
  · cases hfollow
  next hempty =>
    have hstart : after.start path = fs.start path := by simp only [start, h.workFolder]
    rw [if_neg hempty, hstart]
    exact foldlM_step_of_keeps h hfollow

/-- A path that can be followed leads to the location that it denotes. -/
theorem place_eq_locate {fs : FileSystem} {path : FilePath} {there : Location}
    (h : fs.place path = .ok there) : there = fs.locate path := by
  have hkeeps : Keeps (fun _ => False) fs fs := .refl fs
  have hfollow := (follow_of_keeps hkeeps h).2
  rwa [FilePath.filterMap_dropTrailing] at hfollow

/-! ## Making folders -/

theorem makeFolder_keeps {fs after : FileSystem} {path : FilePath}
    (h : fs.makeFolder path = .ok after) : Keeps (fun _ => False) fs after := by
  simp only [makeFolder, bind, Except.bind] at h
  split at h
  · cases h
  next place hplace =>
    split at h
    · cases h
    next hnone =>
      cases h
      have hfolder : ¬ fs.tree.HasFolder place := by
        rintro ⟨entries, hentries⟩
        rw [hnone] at hentries
        cases hentries
      have hput := FileTree.keeps_put fs.tree (.folder []) hfolder
      refine ⟨rfl, hput.folder, fun _ hfile => hput.file ?_ hfile⟩
      rintro rfl
      rw [FileTree.HasFile, hnone] at hfile
      cases hfile

theorem ensureFolder_keeps {fs after : FileSystem} {path : FilePath}
    (h : fs.ensureFolder path = .ok after) : Keeps (fun _ => False) fs after := by
  unfold ensureFolder at h
  split at h
  next made hmade =>
    cases h
    exact makeFolder_keeps hmade
  next =>
    split at h
    · cases h
      exact .refl fs
    · cases h

/-- Making folders adds folders only, also when it fails on the way. -/
theorem makeFoldersTo_keeps (fuel : Nat) (fs : FileSystem) (path : FilePath) :
    Keeps (fun _ => False) fs (makeFoldersTo fuel fs path).1 := by
  induction fuel generalizing fs path with
  | zero => exact .refl fs
  | succ fuel ih =>
      unfold makeFoldersTo
      split
      · exact .refl fs
      · split
        next made hmade => exact ensureFolder_keeps hmade
        next parent hmissing hparent =>
          have hfolders := ih fs parent
          split
          next made hmade =>
            rw [hmade] at hfolders
            split
            next last hlast => exact hfolders.trans (ensureFolder_keeps hlast)
            next => exact hfolders
          next => exact hfolders
        next => exact .refl fs

/-! ## Writing files -/

/-- A place without a folder, where a path ends in a name, lies in a folder that exists. -/
theorem exists_folder_of_place {fs : FileSystem} {path : FilePath} {place : Location}
    (hplace : fs.place path = .ok place) (hslash : path.text.toList.getLast? ≠ some '/')
    (hfolder : ¬ fs.tree.HasFolder place) :
    fs.follow path path.parts = .ok place ∧
      ∃ folder name, place = folder ++ [name] ∧ fs.tree.HasFolder folder := by
  have hempty : path.text.isEmpty = false := by
    cases h : path.text.isEmpty with
    | false => rfl
    | true => simp [FileSystem.place, follow, h] at hplace
  -- All parts but the last lead to a folder, as the last step could be taken from there.
  obtain ⟨parts, last, hparts, hlast, htrim⟩ := FilePath.dropTrailing_parts hempty hslash
  rw [FileSystem.place, htrim] at hplace
  refine ⟨hplace, ?_⟩
  simp only [follow, hempty, Bool.false_eq_true, ↓reduceIte, hparts, List.foldlM_append,
    List.foldlM_cons, List.foldlM_nil, bind, Except.bind] at hplace
  split at hplace
  · cases hplace
  next here hhere =>
    split at hplace
    · cases hplace
    next there hthere =>
      cases hplace
      obtain ⟨hin, hthere⟩ := step_eq_ok_iff.mp hthere
      cases hcomponent : FilePath.component? last with
      | none =>
          rw [hcomponent] at hthere
          exact absurd (hthere ▸ hin) hfolder
      | some component =>
          rw [hcomponent] at hthere
          cases component with
          | normal name => exact ⟨here, name, hthere, hin⟩
          -- Going up leads to a folder, against what is assumed.
          | parent =>
              refine absurd ?_ hfolder
              rw [hthere]
              by_cases hnil : here = []
              · exact hnil ▸ ⟨fs.tree, rfl⟩
              · rw [← List.dropLast_concat_getLast hnil] at hin
                exact hin.of_append
          | root => exact absurd hcomponent (FilePath.component?_ne_root last)
          | current => exact absurd hcomponent (FilePath.component?_ne_current last)

/-- A file was put at the location of a path, and nothing else was changed. -/
structure Puts (path : FilePath) (content : ByteArray) (before after : FileSystem) : Prop where
  keeps : Keeps (· = before.locate path) before after
  adds : FileTree.Adds (· = before.locate path) (fun _ => False) before.tree after.tree
  follow : after.follow path path.parts = .ok (before.locate path)
  file : after.tree.HasFile (before.locate path) content

/-- Where a file can be written, putting it there is all that happens. -/
theorem put_of_fileTarget {fs : FileSystem} {path : FilePath} {place : Location}
    (h : fs.fileTarget path = .ok place) (content : ByteArray)
    (faults : List (Option WriteFault)) :
    Puts path content fs (FileSystem.put { fs with faults } place (.file content)) := by
  simp only [fileTarget, bind_eq_ok_iff] at h
  obtain ⟨there, hplace, h⟩ := h
  split at h
  · cases h
  next hnotFolder =>
    split at h
    · cases h
    next hslash =>
      cases h
      obtain rfl := place_eq_locate hplace
      have hfolder : ¬ fs.tree.HasFolder (fs.locate path) := fun ⟨entries, hentries⟩ =>
        hnotFolder entries hentries
      obtain ⟨hfollow, folder, name, hname, hin⟩ :=
        exists_folder_of_place hplace (fun heq => hslash (by simp [heq])) hfolder
      have hkeeps : Keeps (· = fs.locate path) fs
          (FileSystem.put { fs with faults } (fs.locate path) (.file content)) :=
        ⟨rfl, FileTree.keeps_put fs.tree (.file content) hfolder⟩
      refine ⟨hkeeps, ?_, (follow_of_keeps hkeeps hfollow).1, ?_⟩
      · refine (FileTree.adds_put fs.tree _ (.file content)).mono (fun _ h => h.1) ?_
        rintro _ ⟨-, hentry⟩
        cases hentry
      · rw [hname]
        exact FileTree.get?_put_self fs.tree hin name (.file content)

/-- A write puts the content or, if it stops half way, a beginning of it. Else no file changes. -/
theorem write_cases (fs : FileSystem) (path : FilePath) (content : ByteArray) :
    (∃ after, fs.write path content = (after, .ok ()) ∧ Puts path content fs after) ∨
    (∃ after fault, fs.write path content = (after, .error fault) ∧ after.tree = fs.tree ∧
      after.workFolder = fs.workFolder) ∨
    ∃ after fault kept, fs.write path content = (after, .error fault) ∧
      Puts path (content.extract 0 kept) fs after := by
  unfold write
  cases htarget : fs.fileTarget path with
  | error fault => exact .inr (.inl ⟨fs, fault, rfl, rfl, rfl⟩)
  | ok place =>
      cases hfault : fs.faults.headD none with
      | none => exact .inl ⟨_, rfl, put_of_fileTarget htarget content _⟩
      | some fault =>
          cases fault with
          | refused fault => exact .inr (.inl ⟨_, fault, rfl, rfl, rfl⟩)
          | cut kept fault =>
              exact .inr (.inr ⟨_, fault, kept, rfl, put_of_fileTarget htarget _ _⟩)

/-- A file that can be reached and is not changed is read as before. -/
theorem read_of_hasFile {fs : FileSystem} {path : FilePath} {place : Location} {text : String}
    (hfollow : fs.follow path path.parts = .ok place)
    (hfile : fs.tree.HasFile place text.toUTF8) :
    fs.exists? path = true ∧ fs.read path = .ok text := by
  have hentry : fs.entry path = .ok (.file text.toUTF8) := by
    simp only [entry, hfollow, bind, Except.bind]
    rw [hfile]
  have htext : String.fromUTF8? text.toUTF8 = some text := by
    have hvalid : text.toUTF8.IsValidUTF8 := text.isValidUTF8
    simp only [String.fromUTF8?, hvalid, ↓reduceDIte]
    rfl
  constructor
  · simp only [exists?, hentry]
    rfl
  · simp only [read, hentry, bind, Except.bind, htext]
    rfl

end FileSystem

namespace Writer

theorem makeParent_keeps (fs : FileSystem) (path : FilePath) :
    FileSystem.Keeps (fun _ => False) fs (makeParent fs path).1 := by
  unfold makeParent
  split
  · exact .refl fs
  · split
    · exact .refl fs
    · exact FileSystem.makeFoldersTo_keeps _ _ _

/-- A unit's content stands at its destination. -/
def Holds (fs : FileSystem) (root : FilePath) (unit : GeneratedUnit) : Prop :=
  fs.follow (unit.destination root) (unit.destination root).parts =
      .ok (fs.locate (unit.destination root)) ∧
    fs.tree.HasFile (fs.locate (unit.destination root)) unit.content.toUTF8

/-- A destination that is not touched keeps its content. -/
theorem Holds.of_keeps {changed : Location → Prop} {before after : FileSystem} {root : FilePath}
    {unit : GeneratedUnit} (h : Holds before root unit)
    (hkeeps : FileSystem.Keeps changed before after)
    (hunchanged : ¬ changed (before.locate (unit.destination root))) : Holds after root unit := by
  rw [Holds, hkeeps.locate]
  exact ⟨(FileSystem.follow_of_keeps hkeeps h.1).1, hkeeps.tree.file hunchanged h.2⟩

/-- A destination with the content of a unit is read as this content. -/
theorem Holds.read {fs : FileSystem} {root : FilePath} {unit : GeneratedUnit}
    (h : Holds fs root unit) : fs.read (unit.destination root) = .ok unit.content :=
  (FileSystem.read_of_hasFile h.1 h.2).2

/-- A unit whose destination has its content is up to date. -/
theorem Holds.check {fs : FileSystem} {root : FilePath} {unit : GeneratedUnit}
    (h : Holds fs root unit) : check fs root unit = .ok .upToDate := by
  obtain ⟨hexists, hread⟩ := FileSystem.read_of_hasFile h.1 h.2
  simp only [Writer.check, hexists, hread, Except.mapError, bind, Except.bind]
  simp
  rfl

/-- A unit that was written is there, and nothing else has changed. -/
theorem writeUnit_eq_ok {root : FilePath} {unit : GeneratedUnit} {fs : FileSystem}
    {result : WriteResult}
    (h : ((Writer.mk false).writeUnit root unit fs).2.result = .ok result) :
    FileSystem.Keeps (· = fs.locate (unit.destination root)) fs
        ((Writer.mk false).writeUnit root unit fs).1 ∧
      Holds ((Writer.mk false).writeUnit root unit fs).1 root unit := by
  have hparent := makeParent_keeps fs (unit.destination root)
  simp only [writeUnit, Bool.false_eq_true, ↓reduceIte] at h ⊢
  cases hmade : makeParent fs (unit.destination root) with
  | mk made outcome =>
      rw [hmade] at hparent h
      cases outcome with
      | error e => cases h
      | ok _ =>
          obtain ⟨after, hwrite, hputs⟩ | ⟨after, fault, hwrite, -⟩ | ⟨after, fault, -, hwrite, -⟩ :=
            made.write_cases (unit.destination root) unit.content.toUTF8
          · obtain ⟨hkeeps, -, hfollow, hfile⟩ := hputs
            rw [hparent.locate] at hkeeps hfollow hfile
            simp only [hwrite]
            have hall := (hparent.mono fun _ => False.elim).trans hkeeps
            exact ⟨hall, hall.locate _ ▸ hfollow, hall.locate _ ▸ hfile⟩
          all_goals
            simp only [hwrite] at h
            cases h

/-- Units at different locations are all there after they were written. -/
theorem writeAll_eq_ok {root : FilePath} {units : List GeneratedUnit} {fs : FileSystem}
    {results : List WriteResult}
    (h : ((Writer.mk false).writeAll root units fs).2.result = .ok results)
    (hdistinct : (units.map fun unit => fs.locate (unit.destination root)).Nodup) :
    FileSystem.Keeps (· ∈ units.map fun unit => fs.locate (unit.destination root)) fs
        ((Writer.mk false).writeAll root units fs).1 ∧
      ∀ unit ∈ units, Holds ((Writer.mk false).writeAll root units fs).1 root unit := by
  -- On the units; writing the first one does not change where the others are.
  induction units generalizing fs results with
  | nil => exact ⟨.refl fs, by simp⟩
  | cons unit units ih =>
      rw [List.map_cons, List.nodup_cons] at hdistinct
      simp only [writeAll] at h ⊢
      cases hfirst : ((Writer.mk false).writeUnit root unit fs).2.result with
      | error e => simp only [hfirst] at h; cases h
      | ok result =>
          obtain ⟨hkeeps, hholds⟩ := writeUnit_eq_ok hfirst
          simp only [hfirst] at h ⊢
          have hlocate : (fun other : GeneratedUnit =>
              ((Writer.mk false).writeUnit root unit fs).1.locate (other.destination root)) =
              fun other => fs.locate (other.destination root) :=
            funext fun other => hkeeps.locate _
          obtain ⟨rest, hok⟩ : ∃ rest, ((Writer.mk false).writeAll root units
              ((Writer.mk false).writeUnit root unit fs).1).2.result = .ok rest := by
            cases hall : ((Writer.mk false).writeAll root units
                ((Writer.mk false).writeUnit root unit fs).1).2.result with
            | error e => rw [hall] at h; cases h
            | ok rest => exact ⟨rest, rfl⟩
          obtain ⟨hrest, hall⟩ := ih hok (hlocate ▸ hdistinct.2)
          rw [hlocate] at hrest
          rw [List.map_cons]
          refine ⟨?_, fun other hother => ?_⟩
          · refine FileSystem.Keeps.trans (hkeeps.mono fun _ heq => ?_) (hrest.mono fun _ hmem => ?_)
            · exact heq ▸ List.mem_cons_self
            · exact List.mem_cons_of_mem _ hmem
          rcases List.mem_cons.mp hother with rfl | hother
          · -- The first unit is still there, as the later ones are written elsewhere.
            refine hholds.of_keeps hrest ?_
            rw [hkeeps.locate]
            exact hdistinct.1
          · exact hall other hother

end Writer

end ActionUnits
