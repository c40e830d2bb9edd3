import ActionUnits.Load
import ActionUnits.Proofs.Distinct
import ActionUnits.Proofs.FirstFailure

/-! # Loading several action sets

Sets are merged while they are loaded, one step at a time, and every step erases
duplicates. The outcome is what one look at all files together would give: the
first occurrences of their definitions and of their imports, or the error of the
first file that cannot be loaded.
-/

namespace ActionUnits

namespace ActionSet

/-- The definitions and imports of sets, one after the other. -/
def concat (sets : List ActionSet) : ActionSet :=
  ⟨sets.flatMap (·.definitions), sets.flatMap (·.imports)⟩

/-- A set without its repetitions. -/
def distinct (set : ActionSet) : ActionSet :=
  ⟨firstOccurrences set.definitions, firstOccurrences set.imports⟩

/-- Two sets are merged by joining them and erasing duplicates. -/
theorem merge_eq_distinct (a b : ActionSet) : a.merge b = (concat [a, b]).distinct := by
  simp [merge, distinct, concat, eraseDups_eq_firstOccurrences]

/-- What was erased on the way does not matter at the end. -/
theorem distinct_merge (a b : ActionSet) : a.distinct.merge b = a.merge b := by
  simp only [merge, distinct, ← eraseDups_eq_firstOccurrences, eraseDups_eraseDups_append]

/-- Merging one set after the other is joining all of them and erasing duplicates once. -/
theorem foldl_merge_distinct (sets : List ActionSet) (start : ActionSet) :
    sets.foldl merge start.distinct = (concat (start :: sets)).distinct := by
  induction sets generalizing start with
  | nil => simp [concat]
  | cons set sets ih =>
      rw [List.foldl_cons, distinct_merge, merge_eq_distinct, ih]
      simp [concat]

theorem foldl_merge_empty (sets : List ActionSet) :
    sets.foldl merge empty = (concat sets).distinct :=
  foldl_merge_distinct sets empty

/-- A set that is among the sets before it adds nothing. -/
theorem distinct_concat_of_mem {before after : List ActionSet} {set : ActionSet}
    (h : set ∈ before) :
    (concat (before ++ set :: after)).distinct = (concat (before ++ after)).distinct := by
  have hdefs : set.definitions ⊆ before.flatMap (·.definitions) :=
    fun action haction => List.mem_flatMap.mpr ⟨set, h, haction⟩
  have himports : set.imports ⊆ before.flatMap (·.imports) :=
    fun text htext => List.mem_flatMap.mpr ⟨set, h, htext⟩
  simp only [distinct, concat, ← eraseDups_eq_firstOccurrences, List.flatMap_append,
    List.flatMap_cons, ← List.append_assoc]
  rw [← eraseDups_eraseDups_append, eraseDups_append_of_subset hdefs, eraseDups_eraseDups_append,
    ← eraseDups_eraseDups_append (_ ++ set.imports), eraseDups_append_of_subset himports,
    eraseDups_eraseDups_append]

end ActionSet

namespace FileSystem

/-- Files are loaded one by one and merged into what is there. -/
theorem loadInto_result (fs : FileSystem) (merged : ActionSet) (paths : List FilePath) :
    (fs.loadInto merged paths).result =
      (paths.mapM fun path => (fs.loadActions path).result).map
        (·.foldl ActionSet.merge merged) := by
  induction paths generalizing merged with
  | nil => rfl
  | cons path paths ih =>
      simp only [loadInto, Logged.result_bind, Logged.result_report, List.mapM_cons]
      cases (fs.loadActions path).result with
      | error e => rfl
      | ok set =>
          simp only [bind, Except.bind, ih]
          cases paths.mapM fun path => (fs.loadActions path).result <;> rfl

/-- Files are loaded one by one, joined, and freed from duplicates. -/
theorem loadSets_result (fs : FileSystem) (paths : List FilePath) :
    (fs.loadSets paths).result =
      (paths.mapM fun path => (fs.loadActions path).result).map
        fun sets => (ActionSet.concat sets).distinct := by
  rw [loadSets, loadInto_result]
  simp only [ActionSet.foldl_merge_empty]

/-- Loading files gives a set exactly if each of them loads. -/
theorem loadSets_eq_ok_iff {fs : FileSystem} {paths : List FilePath} {set : ActionSet} :
    (fs.loadSets paths).result = .ok set ↔
      ∃ sets, List.Forall₂ (fun path set => (fs.loadActions path).result = .ok set) paths sets ∧
        set = (ActionSet.concat sets).distinct := by
  simp only [loadSets_result, ← mapM_eq_ok_iff]
  cases paths.mapM fun path => (fs.loadActions path).result with
  | error e => simp [Except.map]
  | ok sets => simp [Except.map, eq_comm]

/-- Loading files fails as the first of them that fails does. -/
theorem loadSets_eq_error_iff {fs : FileSystem} {paths : List FilePath} {e : Error} :
    (fs.loadSets paths).result = .error e ↔
      FirstFailure (fun path => (fs.loadActions path).result) paths e := by
  rw [loadSets_result, ← mapM_eq_error_iff]
  cases paths.mapM fun path => (fs.loadActions path).result <;> simp [Except.map]

/-- Loading a file again changes nothing: it has failed before, or it adds what is there. -/
theorem loadSets_repeated {fs : FileSystem} {before after : List FilePath} {path : FilePath}
    (h : path ∈ before) :
    (fs.loadSets (before ++ path :: after)).result = (fs.loadSets (before ++ after)).result := by
  simp only [loadSets_result, List.mapM_append, List.mapM_cons]
  cases hbefore : before.mapM fun path => (fs.loadActions path).result with
  | error e => rfl
  | ok sets =>
      obtain ⟨i, hi⟩ := List.getElem?_of_mem h
      obtain ⟨set, hset, hload⟩ := forall₂_getElem? (mapM_eq_ok_iff.mp hbefore) hi
      simp only [bind, Except.bind, hload]
      cases after.mapM fun path => (fs.loadActions path).result with
      | error e => rfl
      | ok rest =>
          exact congrArg Except.ok
            (ActionSet.distinct_concat_of_mem (List.mem_of_getElem? hset))

/-- Loading sets gives the first occurrences of the definitions and, apart from these, of the
imports of all files in order, if every file loads, and else the error of the first one that does
not. A path that is listed again may be left out. -/
theorem loadSets_merges_first_occurrences (fs : FileSystem) (paths : List FilePath) :
    ((∃ set, (fs.loadSets paths).result = .ok set) ↔
        ∀ path ∈ paths, ∃ set, (fs.loadActions path).result = .ok set) ∧
      (∀ set, (fs.loadSets paths).result = .ok set ↔
        ∃ sets, List.Forall₂ (fun path set => (fs.loadActions path).result = .ok set) paths sets ∧
          set.definitions = firstOccurrences (sets.flatMap (·.definitions)) ∧
          set.imports = firstOccurrences (sets.flatMap (·.imports))) ∧
      (∀ e, (fs.loadSets paths).result = .error e ↔
        FirstFailure (fun path => (fs.loadActions path).result) paths e) ∧
      (∀ before path after, paths = before ++ path :: after → path ∈ before →
        (fs.loadSets paths).result = (fs.loadSets (before ++ after)).result) ∧
      (∀ path set, (fs.loadActions path).result = .ok set →
        (fs.loadSets [path]).result =
          .ok ⟨firstOccurrences set.definitions, firstOccurrences set.imports⟩) := by
  refine ⟨?_, ?_, fun e => loadSets_eq_error_iff, ?_, ?_⟩
  · rw [← exists_mapM_eq_ok_iff, loadSets_result]
    cases paths.mapM fun path => (fs.loadActions path).result <;> simp [Except.map]
  · intro set
    rw [loadSets_eq_ok_iff]
    refine exists_congr fun sets => and_congr_right fun _ => ?_
    cases set
    simp [ActionSet.distinct, ActionSet.concat]
  · rintro before path after rfl hpath
    exact loadSets_repeated hpath
  · intro path set hset
    rw [loadSets_eq_ok_iff]
    refine ⟨[set], .cons hset .nil, ?_⟩
    simp [ActionSet.distinct, ActionSet.concat]

end FileSystem

end ActionUnits
