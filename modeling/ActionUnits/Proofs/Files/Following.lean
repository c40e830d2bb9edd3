import ActionUnits.Files.Search
import ActionUnits.Proofs.Files.Writing

/-! # Following paths part by part

A path that goes on by a part leads one step further. Where the path starts is settled by its text
before, so the current folder can be left out in front of a part, as searching does.
-/

namespace ActionUnits

open Text

namespace FilePath

/-! ## Joining parts -/

/-- The text of a folder without a slash at its end. -/
def unslashed (path : FilePath) : List Char :=
  if path.text.toList.getLast? == some '/' then path.text.toList.dropLast else path.text.toList

theorem text_eq_unslashed (path : FilePath) :
    path.text.toList = path.unslashed ++ ['/'] ∨ path.text.toList = path.unslashed := by
  unfold unslashed
  split
  next hslash =>
    obtain ⟨before, hbefore⟩ := List.getLast?_eq_some_iff.mp (eq_of_beq hslash)
    exact .inl (by rw [hbefore, List.dropLast_concat])
  next => exact .inr rfl

/-- A relative path is joined with a slash in between. -/
theorem toList_join {base other : FilePath} (hbase : base.text ≠ "")
    (hrel : other.isAbsolute = false) :
    (base.join other).text.toList = base.unslashed ++ '/' :: other.text.toList := by
  have hempty : base.text.isEmpty = false := by
    rw [Bool.eq_false_iff]
    exact mt String.isEmpty_iff.mp hbase
  simp only [join, hrel, Bool.false_eq_true, ↓reduceIte, hempty, Bool.false_or, unslashed]
  split
  next hslash =>
    obtain ⟨before, hbefore⟩ := List.getLast?_eq_some_iff.mp (eq_of_beq hslash)
    rw [String.toList_append, hbefore, List.dropLast_concat, List.append_assoc]
    rfl
  next =>
    rw [String.toList_append, String.toList_append, List.append_assoc]
    rfl

/-- What is joined to a path has a text. -/
theorem text_join_ne {base other : FilePath} (hbase : base.text ≠ "")
    (hrel : other.isAbsolute = false) : (base.join other).text ≠ "" := by
  intro hempty
  have h := toList_join hbase hrel
  rw [hempty] at h
  simp at h

theorem parts_join {base other : FilePath} (hbase : base.text ≠ "")
    (hrel : other.isAbsolute = false) :
    (base.join other).parts = splitAll '/' base.unslashed ++ other.parts := by
  rw [parts, toList_join hbase hrel, splitAll_append_cons]
  rfl

/-- A slash at the end makes for an empty part, which leads nowhere. -/
theorem parts_eq_unslashed (path : FilePath) :
    path.parts = splitAll '/' path.unslashed ++ [[]] ∨
      path.parts = splitAll '/' path.unslashed := by
  unfold parts
  rcases path.text_eq_unslashed with htext | htext
  · exact .inl (by rw [htext, splitAll_append_cons]; rfl)
  · exact .inr (by rw [htext])

/-- Only the root has an empty part in front. -/
theorem isAbsolute_of_parts {path : FilePath} (h : path.text ≠ "") {rest : List (List Char)}
    (hparts : path.parts = [] :: rest) : path.isAbsolute = true := by
  unfold parts at hparts
  obtain ⟨c, cs, htext⟩ := List.exists_cons_of_ne_nil (mt String.toList_eq_nil_iff.mp h)
  by_cases hc : c = '/'
  · exact isAbsolute_iff.mpr ⟨cs, hc ▸ htext⟩
  · rw [htext, splitAll_cons_of_ne hc] at hparts
    cases hparts

/-- The component that a path starts with, if there is one. -/
def firstComponent (path : FilePath) (part : List Char) : List Component :=
  if path.isAbsolute then [.root]
  else if part == ['.'] then [.current]
  else (component? part).toList

/-- The components of a path are those of its parts, where only the first one may be a point. -/
theorem components_eq {path : FilePath} {first : List Char} {rest : List (List Char)}
    (h : path.parts = first :: rest) :
    path.components = path.firstComponent first ++ rest.filterMap component? := by
  rw [components, h]
  rfl

theorem components_eq_unslashed {path : FilePath} {first : List Char} {rest : List (List Char)}
    (h : splitAll '/' path.unslashed = first :: rest) :
    path.components = path.firstComponent first ++ rest.filterMap component? := by
  rcases path.parts_eq_unslashed with hparts | hparts <;> rw [h] at hparts
  · rw [components_eq hparts]
    simp [component?]
  · exact components_eq hparts

/-- A relative path adds its own components. -/
theorem components_join {base other : FilePath} (hbase : base.text ≠ "")
    (hrel : other.isAbsolute = false) :
    (base.join other).components = base.components ++ other.innerComponents := by
  obtain ⟨first, rest, hsplit⟩ := List.exists_cons_of_ne_nil (splitAll_ne_nil '/' base.unslashed)
  have hjoin := parts_join hbase hrel
  rw [hsplit, List.cons_append] at hjoin
  have hfirst : (base.join other).firstComponent first = base.firstComponent first := by
    simp only [firstComponent, isAbsolute_join, hrel, Bool.or_false]
  rw [components_eq hjoin, hfirst, components_eq_unslashed hsplit, List.filterMap_append,
    List.append_assoc]
  rfl

/-- Paths with the same components have the same ones behind the root. -/
theorem innerComponents_of_components {a b : FilePath} (h : a.components = b.components) :
    a.innerComponents = b.innerComponents := by
  have habs : a.isAbsolute = b.isAbsolute := by
    rw [Bool.eq_iff_iff, ← root_mem_components_iff, ← root_mem_components_iff, h]
  have ha := a.components_filter
  rw [h, b.components_filter, habs] at ha
  exact (List.append_cancel_left ha).symm

/-! ## Single parts -/

section Single

variable {path : FilePath} {text : String}

theorem isAbsolute_single (h : '/' ∉ text.toList) : (FilePath.mk text).isAbsolute = false := by
  rw [Bool.eq_false_iff, Ne, isAbsolute_iff]
  rintro ⟨cs, hcs⟩
  exact h (by rw [hcs]; exact List.mem_cons_self)

theorem parts_single (h : '/' ∉ text.toList) : (FilePath.mk text).parts = [text.toList] :=
  splitAll_of_notMem h

theorem innerComponents_single (h : '/' ∉ text.toList) :
    (FilePath.mk text).innerComponents = (component? text.toList).toList := by
  rw [innerComponents, parts_single h, List.filterMap_cons, List.filterMap_nil]
  cases component? text.toList <;> rfl

/-- Nothing and a single point are no components. -/
theorem component?_eq_none_iff {part : List Char} :
    component? part = none ↔ part = [] ∨ part = ['.'] := by
  unfold component?
  split
  next h => simpa using h
  next h =>
    rw [Bool.or_eq_true, not_or] at h
    have hne : ¬ (part = [] ∨ part = ['.']) := by simpa using h
    split <;> simp [hne]

/-- The current folder is written with parts that stay where they are. -/
theorem parts_of_isCurrent (h : path.isCurrent = true) :
    path.isAbsolute = false ∧ ∀ part ∈ path.parts, component? part = none := by
  have hfilter := path.components_filter
  rw [eq_of_beq h] at hfilter
  have hnil := List.append_eq_nil_iff.mp hfilter.symm
  constructor
  · by_contra habs
    rw [Bool.not_eq_false] at habs
    simp [habs] at hnil
  · intro part hpart
    cases hcomponent : component? part with
    | none => rfl
    | some component =>
        have hmem : component ∈ path.innerComponents :=
          List.mem_filterMap.mpr ⟨part, hpart, hcomponent⟩
        rw [hnil.2] at hmem
        cases hmem

/-- A part adds its component, also where the current folder is left out. -/
theorem innerComponents_child (h : '/' ∉ text.toList) :
    (path.child text).innerComponents =
      path.innerComponents ++ (component? text.toList).toList := by
  unfold child
  split
  next hcurrent =>
    have hnil : path.innerComponents = [] := by
      rw [innerComponents, List.filterMap_eq_nil_iff]
      exact (parts_of_isCurrent hcurrent).2
    rw [innerComponents_single h, hnil, List.nil_append]
  next => rw [innerComponents_join path (isAbsolute_single h), innerComponents_single h]

end Single

end FilePath

namespace FileSystem

/-! ## Where paths lead -/

def reach (fs : FileSystem) (path : FilePath) : Except IoFault Location :=
  fs.follow path path.parts

variable {fs : FileSystem} {path : FilePath} {text : String}

/-- A path is followed part by part. -/
theorem reach_eq (hpath : path.text ≠ "") :
    fs.reach path = path.parts.foldlM fs.step (fs.start path) := by
  rw [reach, follow, if_neg (mt String.isEmpty_iff.mp hpath)]

/-- A part that stays where it is makes sure that there is a folder. -/
theorem step_bind_step {part : List Char} (h : FilePath.component? part = none) (here : Location)
    (next : List Char) :
    (fs.step here part >>= fun there => fs.step there next) = fs.step here next := by
  have hstay : (part.isEmpty || part == ['.']) = true := by
    rcases FilePath.component?_eq_none_iff.mp h with rfl | rfl <;> rfl
  cases hentry : fs.tree.get? here with
  | none => simp only [step, hentry, bind, Except.bind]
  | some entry =>
      cases entry with
      | file content => simp only [step, hentry, bind, Except.bind]
      | folder entries => simp only [step, hentry, bind, Except.bind, hstay, ↓reduceIte]

/-- Parts that are no components lead nowhere else. -/
theorem foldlM_step_bind {parts : List (List Char)} (hne : parts ≠ [])
    (h : ∀ part ∈ parts, FilePath.component? part = none) (here : Location) (next : List Char) :
    (parts.foldlM fs.step here >>= fun there => fs.step there next) = fs.step here next := by
  induction parts generalizing here with
  | nil => exact absurd rfl hne
  | cons part parts ih =>
      have hpart : (fs.step here part >>= fun there => fs.step there next) = fs.step here next :=
        step_bind_step (h part List.mem_cons_self) here next
      rw [List.foldlM_cons, bind_assoc]
      by_cases hparts : parts = []
      · subst hparts
        exact hpart
      · simp only [ih hparts fun p hp => h p (List.mem_cons_of_mem _ hp)]
        exact hpart

/-- A joined path is followed through the one and then through the other. -/
theorem reach_join_eq {base other : FilePath} (hbase : base.text ≠ "")
    (hrel : other.isAbsolute = false) :
    fs.reach (base.join other) =
      (Text.splitAll '/' base.unslashed).foldlM fs.step (fs.start base) >>= fun here =>
        other.parts.foldlM fs.step here := by
  have hstart : fs.start (base.join other) = fs.start base := by
    simp only [start, FilePath.isAbsolute_join, hrel, Bool.or_false]
  rw [reach_eq (FilePath.text_join_ne hbase hrel), FilePath.parts_join hbase hrel,
    List.foldlM_append, hstart]

/-- A path that goes on by a part leads one step further. -/
theorem reach_join (hpath : path.text ≠ "") (htext : '/' ∉ text.toList) :
    fs.reach (path.join ⟨text⟩) =
      fs.reach path >>= fun here => fs.step here text.toList := by
  rw [reach_join_eq hpath (FilePath.isAbsolute_single htext), FilePath.parts_single htext,
    reach_eq hpath]
  rcases path.parts_eq_unslashed with hparts | hparts <;> rw [hparts]
  · -- The slash at the end stays where it is, which the next step does as well.
    rw [List.foldlM_append, bind_assoc]
    congr 1
    funext here
    have hempty : ∀ part ∈ [([] : List Char)], FilePath.component? part = none := by
      simp [FilePath.component?]
    rw [foldlM_step_bind (List.cons_ne_nil _ _) hempty]
    simp
  · simp

/-- The current folder need not be mentioned before a part. -/
theorem reach_child (hpath : path.text ≠ "") (htext : '/' ∉ text.toList)
    (hchild : (path.child text).text ≠ "") :
    fs.reach (path.child text) =
      fs.reach path >>= fun here => fs.step here text.toList := by
  unfold FilePath.child at hchild ⊢
  split
  next hcurrent =>
    rw [if_pos hcurrent] at hchild
    obtain ⟨hrel, hparts⟩ := FilePath.parts_of_isCurrent hcurrent
    have hstart : fs.start ⟨text⟩ = fs.start path := by
      simp only [start, FilePath.isAbsolute_single htext, hrel]
    rw [reach_eq hchild, reach_eq hpath, FilePath.parts_single htext, hstart,
      foldlM_step_bind path.parts_ne_nil hparts]
    simp
  next => exact reach_join hpath htext

theorem reach_child_eq_ok_iff (hpath : path.text ≠ "") (htext : '/' ∉ text.toList)
    (hchild : (path.child text).text ≠ "") {there : Location} :
    fs.reach (path.child text) = .ok there ↔
      ∃ here, fs.reach path = .ok here ∧ fs.step here text.toList = .ok there := by
  rw [reach_child hpath htext hchild]
  cases fs.reach path <;> simp [bind, Except.bind]

theorem text_child_ne (htext : text ≠ "") (hpath : path.text ≠ "") (hslash : '/' ∉ text.toList) :
    (path.child text).text ≠ "" := by
  unfold FilePath.child
  split
  · exact htext
  · exact FilePath.text_join_ne hpath (FilePath.isAbsolute_single hslash)

/-! ## What paths denote -/

theorem entry_eq_ok_iff {entry : FileEntry} : fs.entry path = .ok entry ↔
    ∃ location, fs.reach path = .ok location ∧ fs.tree.get? location = some entry := by
  unfold FileSystem.entry
  change (fs.reach path >>= _) = _ ↔ _
  cases fs.reach path with
  | error fault => simp [bind, Except.bind]
  | ok location =>
      simp only [bind, Except.bind]
      cases hget : fs.tree.get? location <;> simp [hget]

/-- A path exists if it leads to a file or a folder. -/
theorem exists?_iff : fs.exists? path = true ↔
    ∃ location entry, fs.reach path = .ok location ∧ fs.tree.get? location = some entry := by
  have hentry : fs.exists? path = true ↔ ∃ entry, fs.entry path = .ok entry := by
    unfold exists?
    cases fs.entry path <;> simp [Except.isOk, Except.toBool]
  simp only [hentry, entry_eq_ok_iff]
  exact exists_comm

theorem isFolder_iff : fs.isFolder path = true ↔
    ∃ location, fs.reach path = .ok location ∧ fs.tree.HasFolder location := by
  have hentry : fs.isFolder path = true ↔ ∃ entries, fs.entry path = .ok (.folder entries) := by
    unfold isFolder
    split <;> simp_all
  simp only [hentry, entry_eq_ok_iff, FileTree.HasFolder]
  exact exists_comm.trans (by simp)

end FileSystem

end ActionUnits
