import ActionUnits.Proofs.Files.Writing
import ActionUnits.Proofs.Text.Trim

/-! # The exact effect of writing units

Units are written one after the other, up to the first one that fails. At every
moment the files at the destinations of the units written so far have the content
of the unit that was written there last, all other files are as they were, and
the folders that are new lie on the way to a destination. A destination that two
units share makes no exception. A failure makes one only where it stops a write
half way: then the file of that unit holds a beginning of the content.
-/

namespace ActionUnits

open Text

namespace FilePath

/-! ## Parents -/

theorem filterMap_trimParts (parts : List (List Char)) :
    (trimParts parts).filterMap component? = parts.filterMap component? := by
  have hdrop : ∀ rest : List (List Char),
      (dropTrailing (fun part => (component? part).isNone) rest).filterMap component? =
        rest.filterMap component? := by
    intro rest
    induction rest using List.reverseRecOn with
    | nil => rfl
    | append_singleton rest part ih =>
        cases hpart : component? part with
        | none =>
            rw [dropTrailing_append_of_forall (by simp [hpart]), ih]
            simp [hpart]
        | some component =>
            rw [dropTrailing_eq_self fun last hlast => ?_]
            rw [List.getLast?_concat, Option.some.injEq] at hlast
            simp [← hlast, hpart]
  cases parts with
  | nil => rfl
  | cons first rest => rw [trimParts, List.filterMap_cons, List.filterMap_cons, hdrop]

/-- A path of several parts is absolute exactly if the first one is empty. -/
theorem isAbsolute_iff_of_parts {path : FilePath} {first : List Char} {rest : List (List Char)}
    (hparts : path.parts = first :: rest) (hrest : rest ≠ []) :
    path.isAbsolute = true ↔ first = [] := by
  unfold isAbsolute
  unfold parts at hparts
  cases htext : path.text.toList with
  | nil =>
      rw [htext, splitAll] at hparts
      exact absurd (List.cons.inj hparts).2.symm hrest
  | cons c cs =>
      rw [htext] at hparts
      by_cases hc : c = '/'
      · subst hc
        rw [splitAll_cons_self] at hparts
        simp [(List.cons.inj hparts).1]
      · rw [splitAll_cons_of_ne hc] at hparts
        simp [hc, ← (List.cons.inj hparts).1]

/-- Parts that were put together are the parts of the path. -/
theorem ofParts_eq {absolute : Bool} {first : List Char} {rest : List (List Char)}
    (hfirst : absolute = true ↔ first = []) (hslash : ∀ part ∈ first :: rest, '/' ∉ part) :
    (ofParts absolute (first :: rest)).isAbsolute = absolute ∧
      (ofParts absolute (first :: rest)).innerComponents =
        (first :: rest).filterMap component? := by
  by_cases hroot : (absolute && (first :: rest).length ≤ 1) = true
  · obtain ⟨rfl, hlength⟩ := Bool.and_eq_true_iff.mp hroot
    obtain rfl : rest = [] := by simpa using hlength
    obtain rfl := hfirst.mp rfl
    rw [ofParts, if_pos hroot]
    exact ⟨by decide, by decide⟩
  · rw [ofParts, if_neg hroot]
    constructor
    · cases rest with
      | nil =>
          have habs : absolute = false := by simpa using hroot
          have hne : first ≠ [] := fun h => by simp [hfirst.mpr h] at habs
          obtain ⟨c, cs, rfl⟩ := List.exists_cons_of_ne_nil hne
          have hc : c ≠ '/' := fun h => hslash _ List.mem_cons_self (h ▸ List.mem_cons_self)
          simp [isAbsolute, List.intercalate_singleton, habs, hc]
      | cons next others =>
          rw [isAbsolute, String.toList_ofList, List.intercalate_cons_cons]
          cases first with
          | nil => simp [hfirst.mpr rfl]
          | cons c cs =>
              have hc : c ≠ '/' := fun h => hslash _ List.mem_cons_self (h ▸ List.mem_cons_self)
              have habs : absolute = false := by simpa using hfirst
              simp [habs, hc]
    · rw [innerComponents, parts, String.toList_ofList,
        splitAll_intercalate (by simp) hslash]

/-- What is kept of the parts of a path ends in a component. -/
theorem exists_component_of_kept {rest init : List (List Char)} {last : List Char}
    (h : dropTrailing (fun part => (component? part).isNone) rest = init ++ [last]) :
    ∃ component, component? last = some component := by
  have hlast : (dropTrailing (fun part => (component? part).isNone) rest).getLast? = some last := by
    rw [h, List.getLast?_concat]
  have hend := not_of_getLast?_dropTrailing hlast
  exact Option.isSome_iff_exists.mp (by simpa using hend)

/-- The parts that are kept, but for the last one, make a path with the components of these parts. -/
theorem parent_of_kept {path : FilePath} {first : List Char} {rest init : List (List Char)}
    {last : List Char} (hparts : path.parts = first :: rest)
    (hkept : dropTrailing (fun part => (component? part).isNone) rest = init ++ [last]) :
    (ofParts path.isAbsolute (trimParts (first :: init))).isAbsolute = path.isAbsolute ∧
      (ofParts path.isAbsolute (trimParts (first :: init))).innerComponents =
        (first :: init).filterMap component? := by
  have hslash : ∀ part ∈ first :: rest, '/' ∉ part := by
    intro part hpart
    rw [← hparts] at hpart
    exact notMem_of_mem_splitAll hpart
  have hsub : ∀ part ∈ init, part ∈ rest := by
    intro part hpart
    have hmem : part ∈ dropTrailing (fun part => (component? part).isNone) rest := by
      rw [hkept]
      exact List.mem_append_left _ hpart
    exact (List.rdropWhile_prefix _ _).subset hmem
  have hkeeps : ∀ part ∈ trimParts (first :: init), '/' ∉ part := by
    intro part hpart
    rcases List.mem_cons.mp hpart with rfl | hpart
    · exact hslash _ List.mem_cons_self
    · exact hslash _ (List.mem_cons_of_mem _ (hsub _ ((List.rdropWhile_prefix _ _).subset hpart)))
  have hrest : rest ≠ [] := by
    rintro rfl
    exact List.cons_ne_nil _ _ (List.append_eq_nil_iff.mp hkept.symm).2
  obtain ⟨hsame, hcomponents⟩ := ofParts_eq (isAbsolute_iff_of_parts hparts hrest) hkeeps
  refine ⟨hsame, ?_⟩
  rw [trimParts, hcomponents, ← trimParts, filterMap_trimParts]

/-- The parent of a path lacks its last component. -/
theorem parent?_eq_some {path parent : FilePath} (h : path.parent? = some parent) :
    parent.isAbsolute = path.isAbsolute ∧
      parent.innerComponents = path.innerComponents.dropLast ∧
      (path.innerComponents = [] → parent.text = "") := by
  obtain ⟨first, rest, hparts⟩ := List.exists_cons_of_ne_nil path.parts_ne_nil
  have hinner : path.innerComponents = (trimParts path.parts).filterMap component? :=
    (filterMap_trimParts _).symm
  rw [hparts, trimParts] at hinner
  rw [parent?, hparts, trimParts] at h
  -- Parts without a component do not count, so the parent drops the last part that has one; if only
  -- the first part is left, a relative path has the empty path as its parent.
  cases hkept : dropTrailing (fun part => (component? part).isNone) rest with
  | nil =>
      rw [hkept] at h hinner
      dsimp only at h
      split at h
      · cases h
      next hrel =>
        cases h
        rw [Bool.or_eq_true, not_or, Bool.not_eq_true] at hrel
        refine ⟨hrel.1.symm, ?_, fun _ => rfl⟩
        rw [hinner, List.filterMap_cons]
        cases component? first <;> rfl
  | cons next others =>
      rw [hkept] at h hinner
      obtain ⟨init, last, hlast⟩ : ∃ init last, next :: others = init ++ [last] :=
        ⟨_, _, (List.dropLast_concat_getLast (List.cons_ne_nil next others)).symm⟩
      rw [hlast] at hkept
      obtain ⟨component, hcomponent⟩ := exists_component_of_kept hkept
      have hparent : parent = ofParts path.isAbsolute (trimParts (first :: init)) := by
        have hdrop : (first :: next :: others).dropLast = first :: init := by
          rw [hlast, ← List.cons_append, List.dropLast_concat]
        rw [← hdrop]
        exact (Option.some.inj h).symm
      have hsplit : path.innerComponents =
          (first :: init).filterMap component? ++ [component] := by
        rw [hinner, hlast, ← List.cons_append, List.filterMap_append]
        simp [hcomponent]
      obtain ⟨hsame, hcomponents⟩ := parent_of_kept hparts hkept
      rw [← hparent] at hsame hcomponents
      refine ⟨hsame, ?_, fun hnil => ?_⟩
      · rw [hcomponents, hsplit, List.dropLast_concat]
      · rw [hsplit] at hnil
        simp at hnil

end FilePath

namespace FileSystem

/-! ## What is added -/

/-- The way to a path passes a location, or ends there. -/
def Passes (fs : FileSystem) (path : FilePath) (location : Location) : Prop :=
  ∃ before after, path.innerComponents = before ++ after ∧
    location = before.foldl walk (fs.start path)

/-- The way to a path passes a location before its end. -/
def OnWay (fs : FileSystem) (path : FilePath) (location : Location) : Prop :=
  ∃ before after, path.innerComponents = before ++ after ∧ after ≠ [] ∧
    location = before.foldl walk (fs.start path)

/-- Making a folder adds that folder only. -/
theorem makeFolder_adds {fs after : FileSystem} {path : FilePath}
    (h : fs.makeFolder path = .ok after) :
    FileTree.Adds (fun _ => False) (· = fs.locate path) fs.tree after.tree := by
  simp only [makeFolder, bind, Except.bind] at h
  split at h
  · cases h
  next place hplace =>
    split at h
    · cases h
    next =>
      cases h
      refine (FileTree.adds_put fs.tree place .folder).mono ?_ ?_
      · rintro _ ⟨-, _, hentry⟩
        cases hentry
      · rintro _ ⟨rfl, -⟩
        exact place_eq_locate hplace

/-- Making a folder if it is missing adds that folder only. -/
theorem ensureFolder_adds {fs after : FileSystem} {path : FilePath}
    (h : fs.ensureFolder path = .ok after) :
    FileTree.Adds (fun _ => False) (· = fs.locate path) fs.tree after.tree := by
  unfold ensureFolder at h
  split at h
  next made hmade =>
    cases h
    exact makeFolder_adds hmade
  next =>
    split at h
    · cases h
      exact .refl fs.tree
    · cases h

/-- What is on the way to the parent of a path is on the way to the path. -/
theorem Passes.of_parent {fs : FileSystem} {path parent : FilePath}
    (hparent : path.parent? = some parent) {location : Location}
    (h : fs.Passes parent location) : fs.Passes path location := by
  obtain ⟨habs, hinner, -⟩ := FilePath.parent?_eq_some hparent
  obtain ⟨before, after, hsplit, rfl⟩ := h
  refine ⟨before, after ++ path.innerComponents.getLast?.toList, ?_, by simp only [start, habs]⟩
  rw [← List.append_assoc, ← hsplit, hinner]
  cases hnil : path.innerComponents using List.reverseRecOn with
  | nil => rfl
  | append_singleton init last => simp

/-- The folders that are made have paths that the given path goes on from, or that path itself. -/
theorem makeFoldersTo_adds (fuel : Nat) (fs : FileSystem) (path : FilePath) :
    FileTree.Adds (fun _ => False) (fs.Passes path) fs.tree (makeFoldersTo fuel fs path).1.tree := by
  induction fuel generalizing fs path with
  | zero => exact .refl fs.tree
  | succ fuel ih =>
      have hself : ∀ location, location = fs.locate path → fs.Passes path location :=
        fun _ h => ⟨_, [], (List.append_nil _).symm, h⟩
      unfold makeFoldersTo
      split
      · exact .refl fs.tree
      · split
        next made hmade => exact (ensureFolder_adds hmade).mono (fun _ => id) hself
        next parent hmissing hparent =>
          have hfolders := (ih fs parent).mono (fun _ => id)
            fun _ => Passes.of_parent hparent
          have hkeeps := makeFoldersTo_keeps fuel fs parent
          split
          next made hmade =>
            rw [hmade] at hfolders hkeeps
            split
            next last hlast =>
              refine hfolders.trans ((ensureFolder_adds hlast).mono (fun _ => id) ?_)
              intro location hlocation
              exact hself location (hlocation.trans (hkeeps.locate path))
            next => exact hfolders
          next => exact hfolders
        next => exact .refl fs.tree

end FileSystem

namespace Writer

variable {root : FilePath} {unit : GeneratedUnit} {done cut reached : List GeneratedUnit}
  {before fs after : FileSystem}

/-- The folders made for a path lie on its way. -/
theorem makeParent_adds (fs : FileSystem) (path : FilePath) :
    FileTree.Adds (fun _ => False) (fs.OnWay path) fs.tree (makeParent fs path).1.tree := by
  unfold makeParent
  split
  · exact .refl fs.tree
  next parent hparent =>
    split
    · exact .refl fs.tree
    · obtain ⟨habs, hinner, hempty⟩ := FilePath.parent?_eq_some hparent
      have hstart : fs.start parent = fs.start path := by simp only [FileSystem.start, habs]
      by_cases hnil : path.innerComponents = []
      · -- No folder is made for the empty path.
        have htext : parent.text.isEmpty = true := by simp [hempty hnil]
        simp only [FileSystem.makeFolders, FileSystem.makeFoldersTo, htext, ↓reduceIte]
        exact .refl fs.tree
      · refine (FileSystem.makeFoldersTo_adds _ fs parent).mono (fun _ => id) ?_
        rintro location ⟨before, after, hsplit, hwalk⟩
        refine ⟨before, after ++ [path.innerComponents.getLast hnil], ?_, by simp, hstart ▸ hwalk⟩
        rw [← List.append_assoc, ← hsplit, hinner, List.dropLast_concat_getLast]

/-! ## One unit -/

/-- Writing a unit has led to folders on the way to it, and changed its file if `touched` says so. -/
structure Reaches (root : FilePath) (unit : GeneratedUnit) (touched : Prop)
    (before after : FileSystem) : Prop where
  keeps : FileSystem.Keeps
    (fun location => touched ∧ location = before.locate (unit.destination root)) before after
  adds : FileTree.Adds
    (fun location => touched ∧ location = before.locate (unit.destination root))
    (before.OnWay (unit.destination root)) before.tree after.tree

theorem reaches_makeParent (root : FilePath) (unit : GeneratedUnit) (touched : Prop)
    (fs : FileSystem) : Reaches root unit touched fs (makeParent fs (unit.destination root)).1 where
  keeps := (makeParent_keeps fs _).mono fun _ => False.elim
  adds := (makeParent_adds fs _).mono (fun _ => False.elim) fun _ => id

/-- A file is put when the folders on the way have been made. -/
theorem Reaches.puts {content : ByteArray} (h : Reaches root unit True before fs)
    (hputs : FileSystem.Puts (unit.destination root) content fs after) :
    Reaches root unit True before after ∧
      after.follow (unit.destination root) (unit.destination root).parts =
        .ok (after.locate (unit.destination root)) ∧
      after.tree.HasFile (after.locate (unit.destination root)) content := by
  obtain ⟨hkeeps, hadds, hfollow, hfile⟩ := hputs
  rw [← hkeeps.locate] at hfollow hfile
  rw [h.keeps.locate] at hkeeps hadds
  refine ⟨⟨h.keeps.trans (hkeeps.mono fun _ heq => ⟨trivial, heq⟩), ?_⟩, hfollow, hfile⟩
  exact h.adds.trans (hadds.mono (fun _ heq => ⟨trivial, heq⟩) fun _ => False.elim)

/-- A unit is written; or its file is cut short; or nothing but folders on the way to it is added. -/
theorem writeUnit_cases (root : FilePath) (unit : GeneratedUnit) (fs : FileSystem) :
    (∃ after events, (Writer.mk false).writeUnit root unit fs =
        (after, ⟨.ok (.written (unit.destination root) unit.content.utf8ByteSize), events⟩) ∧
      Reaches root unit True fs after ∧ Holds after root unit) ∨
    (∃ after events fault kept, (Writer.mk false).writeUnit root unit fs =
        (after, ⟨.error (.writeFile (unit.destination root).text fault), events⟩) ∧
      Reaches root unit True fs after ∧
      after.tree.HasFile (after.locate (unit.destination root))
        (unit.content.toUTF8.extract 0 kept)) ∨
    ∃ after events e, (Writer.mk false).writeUnit root unit fs = (after, ⟨.error e, events⟩) ∧
      Reaches root unit False fs after := by
  have hfolders := fun touched => reaches_makeParent root unit touched fs
  simp only [writeUnit, Bool.false_eq_true, ↓reduceIte]
  cases hmade : makeParent fs (unit.destination root) with
  | mk made outcome =>
      rw [hmade] at hfolders
      cases outcome with
      | error e => exact .inr (.inr ⟨made, _, e, rfl, hfolders False⟩)
      | ok _ =>
          obtain ⟨after, hwrite, hputs⟩ | ⟨after, fault, hwrite, htree, hwork⟩ |
            ⟨after, fault, kept, hwrite, hputs⟩ :=
              made.write_cases (unit.destination root) unit.content.toUTF8
          · obtain ⟨hreaches, hholds⟩ := (hfolders True).puts hputs
            simp only [hwrite]
            exact .inl ⟨after, _, rfl, hreaches, hholds⟩
          · obtain ⟨⟨hwork', hkeeps⟩, hadds⟩ := hfolders False
            simp only [hwrite]
            refine .inr (.inr ⟨after, _, _, rfl, ⟨hwork.trans hwork', ?_⟩, ?_⟩)
            · rwa [htree]
            · rwa [htree]
          · obtain ⟨hreaches, -, hfile⟩ := (hfolders True).puts hputs
            simp only [hwrite]
            exact .inr (.inl ⟨after, _, fault, kept, rfl, hreaches, hfile⟩)

/-! ## All units -/

/-- What writing units has changed when the units of `done` were written, the files of those of
`cut` perhaps cut short after that, and folders were made for those of `reached`. -/
structure Effect (root : FilePath) (done cut reached : List GeneratedUnit)
    (before after : FileSystem) : Prop where
  workFolder : after.workFolder = before.workFolder
  /-- A destination has the content of the unit that was written there last. -/
  last : ∀ earlier unit later, done = earlier ++ unit :: later →
    (∀ other ∈ later ++ cut,
      before.locate (other.destination root) ≠ before.locate (unit.destination root)) →
    Holds after root unit
  /-- All other files are as they were. -/
  others : ∀ location, (∀ unit ∈ done ++ cut, before.locate (unit.destination root) ≠ location) →
    ∀ content, after.tree.HasFile location content ↔ before.tree.HasFile location content
  folders : ∀ location, before.tree.HasFolder location → after.tree.HasFolder location
  /-- New folders lie on the way to a destination. -/
  made : ∀ location, after.tree.HasFolder location → before.tree.HasFolder location ∨
    ∃ unit ∈ reached, before.OnWay (unit.destination root) location

namespace Effect

theorem refl (root : FilePath) (fs : FileSystem) : Effect root [] [] [] fs fs := by
  refine ⟨rfl, fun earlier unit later h => ?_, fun _ _ _ => Iff.rfl, fun _ => id, fun _ => .inl⟩
  simp at h

theorem keeps (h : Effect root done cut reached before fs) (path : FilePath) :
    fs.locate path = before.locate path ∧ fs.start path = before.start path := by
  simp [FileSystem.locate, FileSystem.start, h.workFolder]

theorem onWay_iff (h : Effect root done cut reached before fs) {path : FilePath}
    {location : Location} : fs.OnWay path location ↔ before.OnWay path location := by
  simp only [FileSystem.OnWay, (h.keeps path).2]

/-- One more unit is reached; `cut` tells whether its file may have changed. -/
theorem reach {touched : Prop} (h : Effect root done [] reached before fs)
    (hunit : Reaches root unit touched fs after) (hcut : touched → unit ∈ cut) :
    Effect root done cut (reached ++ [unit]) before after := by
  have hlocate : ∀ path, fs.locate path = before.locate path := fun path => (h.keeps path).1
  obtain ⟨⟨hwork, hkeeps⟩, hadds⟩ := hunit
  refine ⟨hwork.trans h.workFolder, fun earlier other later hsplit hlast => ?_,
    fun location hnone content => ?_, fun location hfolder => ?_, fun location hfolder => ?_⟩
  · have hbefore := h.last earlier other later hsplit fun o ho =>
      hlast o (List.mem_append_left _ (by simpa using ho))
    refine hbefore.of_keeps ⟨hwork, hkeeps⟩ ?_
    rintro ⟨htouched, heq⟩
    rw [hlocate, hlocate] at heq
    exact hlast unit (List.mem_append_right _ (hcut htouched)) heq.symm
  · have hne : ¬ (touched ∧ location = fs.locate (unit.destination root)) := by
      rintro ⟨htouched, rfl⟩
      exact hnone unit (List.mem_append_right _ (hcut htouched)) (hlocate _).symm
    rw [← h.others location fun other hother => hnone other (List.mem_append_left _ (by
      simpa using hother))]
    exact ⟨fun hfile => (hadds.file hfile).resolve_left hne, hkeeps.file hne⟩
  · exact hkeeps.folder (h.folders location hfolder)
  · rcases hadds.folder hfolder with hway | hold
    · exact .inr ⟨unit, by simp, h.onWay_iff.mp hway⟩
    · refine (h.made location hold).imp_right ?_
      rintro ⟨other, hother, hway⟩
      exact ⟨other, List.mem_append_left _ hother, hway⟩

/-- A unit whose file is whole counts as written. -/
theorem written (h : Effect root done [unit] reached before after)
    (hholds : Holds after root unit) : Effect root (done ++ [unit]) [] reached before after := by
  refine ⟨h.workFolder, fun earlier other later hsplit hlast => ?_, fun location hnone => ?_,
    h.folders, h.made⟩
  · -- The unit is the last one, or it comes later than the other one and goes elsewhere.
    rcases List.eq_nil_or_concat' later with rfl | ⟨between, last, rfl⟩
    · obtain ⟨-, heq⟩ := List.append_inj' hsplit rfl
      cases heq
      exact hholds
    · rw [← List.cons_append, ← List.append_assoc] at hsplit
      obtain ⟨hdone, heq⟩ := List.append_inj' hsplit rfl
      cases heq
      exact h.last earlier other between hdone fun o ho => hlast o (by simpa using ho)
  · exact h.others location (by simpa using hnone)

end Effect

/-- How the unit at which writing fails leaves its file: as it was, or with a beginning of its
content. -/
inductive Leaves (root : FilePath) (unit : GeneratedUnit) (after : FileSystem) :
    Error → List GeneratedUnit → Prop
  | untouched {e : Error} : Leaves root unit after e []
  | begun {fault : IoFault} (kept : Nat)
      (file : after.tree.HasFile (after.locate (unit.destination root))
        (unit.content.toUTF8.extract 0 kept)) :
      Leaves root unit after (.writeFile (unit.destination root).text fault) [unit]

def writtenAll (root : FilePath) (units : List GeneratedUnit) : List WriteResult :=
  units.map fun unit => .written (unit.destination root) unit.content.utf8ByteSize

/-- A unit that is written hands the file system on, whatever units come after it. -/
theorem writeAll_cons_of_ok {result : WriteResult} {events : List Event}
    (h : (Writer.mk false).writeUnit root unit fs = (after, ⟨.ok result, events⟩))
    (units : List GeneratedUnit) :
    ((Writer.mk false).writeAll root (unit :: units) fs).1 =
        ((Writer.mk false).writeAll root units after).1 ∧
      ((Writer.mk false).writeAll root (unit :: units) fs).2.result =
        ((Writer.mk false).writeAll root units after).2.result.map (result :: ·) := by
  simp only [writeAll, h, and_self]

/-- The first unit that fails ends the run. -/
theorem writeAll_cons_of_error {e : Error} {events : List Event}
    (h : (Writer.mk false).writeUnit root unit fs = (after, ⟨.error e, events⟩))
    (units : List GeneratedUnit) :
    (Writer.mk false).writeAll root (unit :: units) fs = (after, ⟨.error e, events⟩) := by
  simp only [writeAll, h]

/-- How far writing units has come: all were written, or one has failed after those before it were
written. -/
theorem writeAll_run (units : List GeneratedUnit) (h : Effect root done [] done before fs) :
    (((Writer.mk false).writeAll root units fs).2.result = .ok (writtenAll root units) ∧
      Effect root (done ++ units) [] (done ++ units) before
        ((Writer.mk false).writeAll root units fs).1) ∨
    ∃ earlier unit later cut e, units = earlier ++ unit :: later ∧
      ((Writer.mk false).writeAll root units fs).2.result = .error e ∧
      ((Writer.mk false).writeAll root earlier fs).2.result = .ok (writtenAll root earlier) ∧
      ((Writer.mk false).writeUnit root unit
        ((Writer.mk false).writeAll root earlier fs).1).2.result = .error e ∧
      Leaves root unit ((Writer.mk false).writeAll root units fs).1 e cut ∧
      Effect root (done ++ earlier) cut (done ++ earlier ++ [unit]) before
        ((Writer.mk false).writeAll root units fs).1 := by
  -- On the units that are left; `done` are those that were written before them.
  induction units generalizing done fs with
  | nil =>
      refine .inl ⟨rfl, ?_⟩
      rw [List.append_nil]
      exact h
  | cons unit units ih =>
      obtain ⟨after, events, hwrite, hreaches, hholds⟩ |
        ⟨after, events, fault, kept, hwrite, hreaches, hfile⟩ |
        ⟨after, events, e, hwrite, hreaches⟩ := writeUnit_cases root unit fs
      · have hall := writeAll_cons_of_ok hwrite
        rw [(hall units).1, (hall units).2]
        have hnext := (h.reach hreaches fun _ => List.mem_singleton.mpr rfl).written hholds
        rcases ih hnext with ⟨hrest, heffect⟩ |
            ⟨earlier, other, later, cut, e, rfl, hrest, hearlier, hother, hleaves, heffect⟩
        · refine .inl ⟨by rw [hrest]; rfl, ?_⟩
          rwa [List.append_assoc] at heffect
        · refine .inr ⟨unit :: earlier, other, later, cut, e, rfl, by rw [hrest]; rfl, ?_, ?_,
            hleaves, ?_⟩
          · rw [(hall earlier).2, hearlier]
            rfl
          · rw [(hall earlier).1]
            exact hother
          · rwa [List.append_assoc, List.singleton_append] at heffect
      · rw [writeAll_cons_of_error hwrite]
        refine .inr ⟨[], unit, units, [unit], _, rfl, rfl, rfl, by rw [writeAll, hwrite],
          .begun kept hfile, ?_⟩
        rw [List.append_nil]
        exact h.reach hreaches fun _ => List.mem_singleton.mpr rfl
      · rw [writeAll_cons_of_error hwrite]
        refine .inr ⟨[], unit, units, [], e, rfl, rfl, rfl, by rw [writeAll, hwrite],
          .untouched, ?_⟩
        rw [List.append_nil]
        exact h.reach hreaches False.elim

/-- A dry run says what would be written. -/
theorem writeAll_dry (root : FilePath) (units : List GeneratedUnit) (fs : FileSystem) :
    ((Writer.mk true).writeAll root units fs).1 = fs ∧
      ((Writer.mk true).writeAll root units fs).2.result =
        .ok (units.map fun unit => .skipped (unit.destination root) unit.content) := by
  induction units with
  | nil => exact ⟨rfl, rfl⟩
  | cons unit units ih =>
      obtain ⟨hfs, hresult⟩ := ih
      simp only [writeAll, writeUnit, ↓reduceIte]
      refine ⟨hfs, ?_⟩
      rw [hresult]
      rfl

/-- Writing units that succeeds, or fails at one of them, has changed the destinations of the units
before the failure, each to the content written there last, and has made folders on the way to the
destinations up to the failure, and nothing else; only the file of the unit that fails may hold a
beginning of its content. A dry run names the same destinations, with the content, and changes
nothing. -/
theorem writeAll_changes_destinations_only (root : FilePath) (units : List GeneratedUnit)
    (before : FileSystem) :
    (∀ results, ((Writer.mk false).writeAll root units before).2.result = .ok results →
      results = units.map (fun unit =>
        .written (unit.destination root) unit.content.utf8ByteSize) ∧
      Effect root units [] units before ((Writer.mk false).writeAll root units before).1) ∧
    (∀ e, ((Writer.mk false).writeAll root units before).2.result = .error e →
      ∃ done unit later cut, units = done ++ unit :: later ∧
        (∃ results, ((Writer.mk false).writeAll root done before).2.result = .ok results) ∧
        ((Writer.mk false).writeUnit root unit
          ((Writer.mk false).writeAll root done before).1).2.result = .error e ∧
        Leaves root unit ((Writer.mk false).writeAll root units before).1 e cut ∧
        Effect root done cut (done ++ [unit]) before
          ((Writer.mk false).writeAll root units before).1) ∧
    ((Writer.mk true).writeAll root units before).1 = before ∧
      ((Writer.mk true).writeAll root units before).2.result =
        .ok (units.map fun unit => .skipped (unit.destination root) unit.content) := by
  refine ⟨fun results hresults => ?_, fun e herror => ?_, writeAll_dry root units before⟩
  · rcases writeAll_run units (.refl root before) with ⟨hok, heffect⟩ |
        ⟨_, _, _, _, e, -, herror, -, -, -, -⟩
    · rw [hok] at hresults
      cases hresults
      exact ⟨rfl, heffect⟩
    · rw [herror] at hresults
      cases hresults
  · rcases writeAll_run units (.refl root before) with ⟨hok, -⟩ |
        ⟨done, unit, later, cut, other, hsplit, hother, hdone, hunit, hleaves, heffect⟩
    · rw [hok] at herror
      cases herror
    · rw [hother] at herror
      cases herror
      exact ⟨done, unit, later, cut, hsplit, ⟨_, hdone⟩, hunit, hleaves, heffect⟩

/-- Two units with one destination, the first by a detour, and a third one. -/
def detourUnits : List GeneratedUnit :=
  [⟨"A", ⟨"a/../A.rs"⟩, "1"⟩, ⟨"A", ⟨"A.rs"⟩, "2"⟩, ⟨"B", ⟨"B.rs"⟩, "34"⟩]

/-- A root with the file of the third unit and another one, where there is no space left for more
than one character of the third unit. -/
def crowdedRoot : FileSystem :=
  ⟨[("out", .folder [("B.rs", .file "b".toUTF8), ("C.rs", .file "c".toUTF8)])], [],
    [none, none, some (.cut 1 .noSpace)]⟩

/-- The third unit fails. The second content stays, and so does the file besides; the file of the
third unit holds half of its content. -/
theorem third_unit_fails :
    ((Writer.mk false).writeAll ⟨"out"⟩ detourUnits crowdedRoot).2.result =
        .error (.writeFile "out/B.rs" .noSpace) ∧
      ((Writer.mk false).writeAll ⟨"out"⟩ detourUnits crowdedRoot).1.read ⟨"out/A.rs"⟩ =
        .ok "2" ∧
      ((Writer.mk false).writeAll ⟨"out"⟩ detourUnits crowdedRoot).1.read ⟨"out/B.rs"⟩ =
        .ok "3" ∧
      ∃ done unit later cut, detourUnits = done ++ unit :: later ∧
        Effect ⟨"out"⟩ done cut (done ++ [unit]) crowdedRoot
          ((Writer.mk false).writeAll ⟨"out"⟩ detourUnits crowdedRoot).1 := by
  have herror : ((Writer.mk false).writeAll ⟨"out"⟩ detourUnits crowdedRoot).2.result =
      .error (.writeFile "out/B.rs" .noSpace) := by
    decide +kernel
  obtain ⟨done, unit, later, cut, hsplit, -, -, -, heffect⟩ :=
    (writeAll_changes_destinations_only ⟨"out"⟩ detourUnits crowdedRoot).2.1 _ herror
  exact ⟨herror, by decide +kernel, by decide +kernel, done, unit, later, cut, hsplit, heffect⟩

/-- A path that leaves a folder again makes this folder on its way, though the folder is no ancestor
of the file. A write that stops half way has changed the file of its unit. -/
theorem detour_makes_folder :
    (((Writer.mk false).writeAll ⟨"out"⟩ [⟨"A", ⟨"a/../A.rs"⟩, "x"⟩] ⟨[], [], []⟩).2.result =
        .ok [.written ⟨"out/a/../A.rs"⟩ 1] ∧
      (FileSystem.mk [] [] []).locate (GeneratedUnit.destination ⟨"A", ⟨"a/../A.rs"⟩, "x"⟩ ⟨"out"⟩) =
        ["out", "A.rs"] ∧
      ((Writer.mk false).writeAll ⟨"out"⟩ [⟨"A", ⟨"a/../A.rs"⟩, "x"⟩] ⟨[], [], []⟩).1.tree.HasFolder
        ["out", "a"] ∧
      ¬ ["out", "a"] <+: ["out", "A.rs"]) ∧
    ((Writer.mk false).writeAll ⟨""⟩ [⟨"B", ⟨"B.rs"⟩, "34"⟩]
        ⟨[("B.rs", .file "b".toUTF8)], [], [some (.cut 1 .noSpace)]⟩).2.result =
        .error (.writeFile "B.rs" .noSpace) ∧
      ((Writer.mk false).writeAll ⟨""⟩ [⟨"B", ⟨"B.rs"⟩, "34"⟩]
        ⟨[("B.rs", .file "b".toUTF8)], [], [some (.cut 1 .noSpace)]⟩).1.read ⟨"B.rs"⟩ = .ok "3" := by
  refine ⟨⟨by decide +kernel, by decide +kernel, ⟨[], rfl⟩, by decide⟩, by decide +kernel,
    by decide +kernel⟩

end Writer

end ActionUnits
