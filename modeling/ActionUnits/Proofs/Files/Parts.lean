import ActionUnits.Proofs.Files.Matching

/-! # Matching part by part

Where a path is not the current folder, searching writes a part behind it for each component of a
pattern, and any number of names for a double asterisk. What a pattern leads to from there is a
matter of these parts alone.
-/

namespace ActionUnits

open Wildcard

/-- The parts that components of a pattern match: one for each, and folders of any depth for a double
asterisk. -/
inductive NamePattern.Matches : List NamePattern → List String → Prop
  | nil : Matches [] []
  | literal {text : String} {patterns : List NamePattern} {parts : List String}
      (rest : Matches patterns parts) : Matches (.literal text :: patterns) (text :: parts)
  | wild {wildcards : List Wildcard} {patterns : List NamePattern} {part : String}
      {parts : List String} (denotes : Denotes wildcards part.toList)
      (proper : IsEntryName part ∨
        (part = "." ∨ part = "..") ∧ wildcards.head? = some (.char '.'))
      (rest : Matches patterns parts) : Matches (.wild wildcards :: patterns) (part :: parts)
  | folders {parts : List String} (ne : parts ≠ []) (proper : ∀ part ∈ parts, IsEntryName part) :
      Matches [.recursive] parts
  | deeper {pattern : NamePattern} {patterns : List NamePattern} {folders parts : List String}
      {part : String} (proper : ∀ folder ∈ folders, IsEntryName folder) (name : IsEntryName part)
      (names : pattern.Names part) (rest : Matches patterns parts) :
      Matches (.recursive :: pattern :: patterns) (folders ++ part :: parts)

namespace NamePattern

/-- What single parts match has no slash. -/
theorem Matches.slash_notMem {patterns : List NamePattern} {parts : List String}
    (h : Matches patterns parts) (hsingle : SingleParts patterns) {part : String}
    (hpart : part ∈ parts) : '/' ∉ part.toList := by
  induction h with
  | nil => cases hpart
  | literal _ ih =>
      rcases List.mem_cons.mp hpart with rfl | hpart
      · exact hsingle _ List.mem_cons_self
      · exact ih hsingle.rest hpart
  | wild _ proper _ ih =>
      rcases List.mem_cons.mp hpart with rfl | hpart
      · exact proper.elim (fun h => h.2.2.2) fun h => FileSystem.slash_notMem_point h.1
      · exact ih hsingle.rest hpart
  | folders _ proper => exact (proper part hpart).2.2.2
  | deeper proper name _ _ ih =>
      rcases List.mem_append.mp hpart with hpart | hpart
      · exact (proper part hpart).2.2.2
      · rcases List.mem_cons.mp hpart with rfl | hpart
        · exact name.2.2.2
        · exact ih hsingle.rest.rest hpart

end NamePattern

namespace FilePath

def along (path : FilePath) (parts : List String) : FilePath :=
  parts.foldl (fun path part => path.join ⟨part⟩) path

/-- Parts may be followed one after the other. -/
theorem along_append (path : FilePath) (parts others : List String) :
    path.along (parts ++ others) = (path.along parts).along others :=
  List.foldl_append

/-- A path that is mentioned before its parts. -/
structure IsAnchored (path : FilePath) : Prop where
  text_ne : path.text ≠ ""
  not_current : path.isCurrent = false

variable {path found : FilePath} {parts : List String}

/-- Something in a folder is joined to the path of the folder. -/
theorem IsAnchored.child (h : path.IsAnchored) (text : String) :
    path.child text = path.join ⟨text⟩ := by
  rw [FilePath.child, h.not_current, if_neg Bool.false_ne_true]

theorem isAnchored_of_components (htext : path.text ≠ "") (h : path.components ≠ [.current]) :
    path.IsAnchored :=
  ⟨htext, beq_false_of_ne h⟩

/-- What follows an anchored path is anchored. -/
theorem IsAnchored.join (h : path.IsAnchored) {part : String} (hpart : '/' ∉ part.toList) :
    (path.join ⟨part⟩).IsAnchored := by
  have hrel := isAbsolute_single hpart
  refine isAnchored_of_components (text_join_ne h.text_ne hrel) fun hcurrent => ?_
  rw [components_join h.text_ne hrel] at hcurrent
  have hne : path.components ≠ [.current] := by simpa [isCurrent] using h.not_current
  cases hcomponents : path.components with
  | nil =>
      rw [hcomponents, List.nil_append] at hcurrent
      have hmem : Component.current ∈ innerComponents ⟨part⟩ :=
        hcurrent ▸ List.mem_singleton_self _
      obtain ⟨other, -, hother⟩ := List.mem_filterMap.mp hmem
      exact component?_ne_current other hother
  | cons first rest =>
      rw [hcomponents, List.cons_append, List.cons.injEq, List.append_eq_nil_iff] at hcurrent
      obtain ⟨rfl, rfl, -⟩ := hcurrent
      exact hne hcomponents

theorem IsAnchored.along (h : path.IsAnchored) (hparts : ∀ part ∈ parts, '/' ∉ part.toList) :
    (path.along parts).IsAnchored := by
  induction parts generalizing path with
  | nil => exact h
  | cons part parts ih =>
      exact ih (h.join (hparts part List.mem_cons_self)) fun p hp =>
        hparts p (List.mem_cons_of_mem _ hp)

/-- Parts that are followed add their components. -/
theorem components_along (htext : path.text ≠ "") (hparts : ∀ part ∈ parts, '/' ∉ part.toList) :
    (path.along parts).components =
      path.components ++ (parts.map String.toList).filterMap component? := by
  induction parts generalizing path with
  | nil => simp [along]
  | cons part parts ih =>
      have hpart := hparts part List.mem_cons_self
      have hrel := isAbsolute_single hpart
      have hrest := ih (text_join_ne htext hrel) fun p hp => hparts p (List.mem_cons_of_mem _ hp)
      rw [along, List.foldl_cons, ← along, hrest, components_join htext hrel,
        innerComponents_single hpart, List.map_cons, List.append_assoc]
      cases hcomponent : component? part.toList <;> simp [hcomponent]

theorem slash_notMem_concat {folders : List String} (hfolders : ∀ folder ∈ folders,
    IsEntryName folder) {name : String} (hname : IsEntryName name) :
    ∀ part ∈ folders ++ [name], '/' ∉ part.toList := by
  intro part hpart
  rcases List.mem_append.mp hpart with hpart | hpart
  · exact (hfolders part hpart).2.2.2
  · exact List.mem_singleton.mp hpart ▸ hname.2.2.2

/-- Below an anchored path, names of folders and the name of an entry are written behind it. -/
theorem under_iff (h : path.IsAnchored) {name : String} :
    path.Under name found ↔ ∃ folders : List String, (∀ folder ∈ folders, IsEntryName folder) ∧
      IsEntryName name ∧ found = path.along (folders ++ [name]) := by
  constructor
  · intro hunder
    induction hunder with
    | entry proper => exact ⟨[], nofun, proper, h.child _⟩
    | @deeper path found folder name proper _ ih =>
        rw [h.child] at ih
        obtain ⟨folders, hfolders, hname, rfl⟩ := ih (h.join proper.2.2.2)
        exact ⟨folder :: folders, List.forall_mem_cons.mpr ⟨proper, hfolders⟩, hname, rfl⟩
  · rintro ⟨folders, hfolders, hname, rfl⟩
    induction folders generalizing path with
    | nil =>
        have hunder : path.Under name (path.child name) := .entry hname
        rwa [h.child] at hunder
    | cons folder folders ih =>
        obtain ⟨hfolder, hfolders⟩ := List.forall_mem_cons.mp hfolders
        refine .deeper hfolder ?_
        rw [h.child]
        exact ih (h.join hfolder.2.2.2) hfolders

end FilePath

/-- What a pattern leads to is found along parts that it matches. -/
theorem exists_parts_of_leads {path found : FilePath} (h : path.IsAnchored)
    {patterns : List NamePattern} (hsingle : NamePattern.SingleParts patterns)
    (hleads : NamePattern.Leads patterns path found) :
    ∃ parts, NamePattern.Matches patterns parts ∧ found = path.along parts := by
  induction hleads with
  | here => exact ⟨[], .nil, rfl⟩
  | @literal text patterns path found written rest ih =>
      rw [h.child] at ih
      obtain ⟨parts, hparts, rfl⟩ := ih (h.join (hsingle text List.mem_cons_self)) hsingle.rest
      exact ⟨text :: parts, .literal hparts, rfl⟩
  | @entry wildcards patterns path found name proper denotes rest ih =>
      rw [h.child] at ih
      obtain ⟨parts, hparts, rfl⟩ := ih (h.join proper.2.2.2) hsingle.rest
      exact ⟨name :: parts, .wild denotes (.inl proper) hparts, rfl⟩
  | @point wildcards patterns path found name special own denotes rest ih =>
      obtain ⟨parts, hparts, rfl⟩ :=
        ih (h.join (FileSystem.slash_notMem_point special)) hsingle.rest
      exact ⟨name :: parts, .wild denotes (.inr ⟨special, own⟩) hparts, rfl⟩
  | folders under =>
      obtain ⟨folders, hfolders, hname, rfl⟩ := (FilePath.under_iff h).mp under
      refine ⟨_, .folders (by simp) fun part hpart => ?_, rfl⟩
      rcases List.mem_append.mp hpart with hpart | hpart
      · exact hfolders part hpart
      · exact List.mem_singleton.mp hpart ▸ hname
  | @deeper pattern patterns path next found name under names rest ih =>
      obtain ⟨folders, hfolders, hname, rfl⟩ := (FilePath.under_iff h).mp under
      obtain ⟨parts, hparts, rfl⟩ :=
        ih (h.along (FilePath.slash_notMem_concat hfolders hname)) hsingle.rest.rest
      refine ⟨folders ++ name :: parts, .deeper hfolders hname names hparts, ?_⟩
      rw [← FilePath.along_append, List.append_assoc, List.singleton_append]

/-- A pattern leads along all parts that it matches. -/
theorem leads_along {path : FilePath} (h : path.IsAnchored) {patterns : List NamePattern}
    (hsingle : NamePattern.SingleParts patterns) {parts : List String}
    (hparts : NamePattern.Matches patterns parts) :
    NamePattern.Leads patterns path (path.along parts) := by
  induction hparts generalizing path with
  | nil => exact .here
  | @literal text patterns parts rest ih =>
      have hnext := h.join (hsingle text List.mem_cons_self)
      refine .literal ?_ ?_ <;> rw [h.child]
      · exact hnext.text_ne
      · exact ih hnext hsingle.rest
  | @wild wildcards patterns part parts denotes proper rest ih =>
      rcases proper with proper | ⟨special, own⟩
      · refine .entry proper denotes ?_
        rw [h.child]
        exact ih (h.join proper.2.2.2) hsingle.rest
      · exact .point special own denotes
          (ih (h.join (FileSystem.slash_notMem_point special)) hsingle.rest)
  | @folders parts ne proper =>
      have hlast := List.dropLast_concat_getLast ne
      refine .folders ((FilePath.under_iff h).mpr ⟨parts.dropLast, fun folder hfolder => ?_,
        proper _ (List.getLast_mem ne), by rw [hlast]⟩)
      exact proper folder (List.dropLast_subset _ hfolder)
  | @deeper pattern patterns folders parts part proper name names rest ih =>
      have hleads := ih (h.along (FilePath.slash_notMem_concat proper name)) hsingle.rest.rest
      rw [← FilePath.along_append, List.append_assoc, List.singleton_append] at hleads
      exact .deeper ((FilePath.under_iff h).mpr ⟨folders, proper, name, rfl⟩) names hleads

/-- From an anchored path, a pattern leads to the paths with parts that it matches. -/
theorem leads_iff {path found : FilePath} (h : path.IsAnchored) {patterns : List NamePattern}
    (hsingle : NamePattern.SingleParts patterns) :
    NamePattern.Leads patterns path found ↔
      ∃ parts, NamePattern.Matches patterns parts ∧ found = path.along parts := by
  constructor
  · exact exists_parts_of_leads h hsingle
  · rintro ⟨parts, hparts, rfl⟩
    exact leads_along h hsingle hparts

namespace FileSystem

/-- Parts are followed from where the path leads. -/
theorem reach_along {fs : FileSystem} {path : FilePath} (htext : path.text ≠ "")
    {parts : List String} (hparts : ∀ part ∈ parts, '/' ∉ part.toList) :
    fs.reach (path.along parts) =
      fs.reach path >>= fun here => (parts.map String.toList).foldlM fs.step here := by
  induction parts generalizing path with
  | nil => simp [FilePath.along]
  | cons part parts ih =>
      have hpart := hparts part List.mem_cons_self
      have hrest := ih (FilePath.text_join_ne htext (FilePath.isAbsolute_single hpart)) fun p hp =>
        hparts p (List.mem_cons_of_mem _ hp)
      rw [FilePath.along, List.foldl_cons, ← FilePath.along, hrest, reach_join htext hpart,
        bind_assoc]
      rfl

end FileSystem

end ActionUnits
