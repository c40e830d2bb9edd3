import ActionUnits.Proofs.Load

/-! # The laws of merging

A merge keeps the first occurrences of what two sets hold together. So it does
not matter in which order several merges are grouped, a set that was merged
before adds nothing, and the empty set changes nothing but duplicates. Only the
order of the elements tells which of two sets came first.
-/

namespace ActionUnits.ActionSet

/-- No definition and no import is there twice. -/
structure DuplicateFree (set : ActionSet) : Prop where
  definitions : set.definitions.Nodup
  imports : set.imports.Nodup

theorem duplicateFree_distinct (set : ActionSet) : set.distinct.DuplicateFree := by
  constructor
  · rw [distinct, ← eraseDups_eq_firstOccurrences]
    exact nodup_eraseDups _
  · rw [distinct, ← eraseDups_eq_firstOccurrences set.imports]
    exact nodup_eraseDups _

/-- A set is what is left of it without duplicates exactly if it has none. -/
theorem distinct_eq_self_iff {set : ActionSet} : set.distinct = set ↔ set.DuplicateFree := by
  constructor
  · intro h
    rw [← h]
    exact duplicateFree_distinct set
  · rintro ⟨hdefinitions, himports⟩
    rw [distinct, ← eraseDups_eq_firstOccurrences, ← eraseDups_eq_firstOccurrences,
      eraseDups_of_nodup hdefinitions, eraseDups_of_nodup himports]

/-- Merging leaves no duplicates. -/
theorem duplicateFree_merge (a b : ActionSet) : (a.merge b).DuplicateFree := by
  rw [merge_eq_distinct]
  exact duplicateFree_distinct _

/-! ## Grouping -/

/-- What was erased from the second set does not matter at the end either. -/
theorem merge_distinct (a b : ActionSet) : a.merge b.distinct = a.merge b := by
  simp only [merge, distinct, ← eraseDups_eq_firstOccurrences, eraseDups_append_eraseDups]

/-- Merges are grouped to the left. -/
theorem merge_merge (a b c : ActionSet) : (a.merge b).merge c = (concat [a, b, c]).distinct := by
  rw [merge_eq_distinct a b, distinct_merge, merge_eq_distinct]
  simp [concat]

/-- It does not matter which sets are merged first. -/
theorem merge_assoc (a b c : ActionSet) : (a.merge b).merge c = a.merge (b.merge c) := by
  rw [merge_merge, merge_eq_distinct b c, merge_distinct, merge_eq_distinct]
  simp [concat]

/-! ## Repetition -/

/-- A set that was merged before adds nothing. -/
theorem merge_merge_of_mem {a b set : ActionSet} (h : set ∈ [a, b]) :
    (a.merge b).merge set = a.merge b := by
  have hconcat : (concat ([a, b] ++ set :: [])).distinct = (concat ([a, b] ++ [])).distinct :=
    distinct_concat_of_mem h
  rw [merge_merge, merge_eq_distinct]
  exact hconcat

/-! ## The empty set -/

theorem empty_merge (a : ActionSet) : empty.merge a = a.distinct := by
  rw [merge_eq_distinct]
  simp [concat, empty]

/-- Merging with nothing erases duplicates. -/
theorem merge_empty (a : ActionSet) : a.merge empty = a.distinct := by
  rw [merge_eq_distinct]
  simp [concat, empty]

/-! ## Order -/

section Order

variable {α : Type} [DecidableEq α]

/-- Lists hold the same elements in either order, each of them once. -/
theorem eraseDups_append_perm (xs ys : List α) :
    (xs ++ ys).eraseDups.Perm (ys ++ xs).eraseDups := by
  refine (List.perm_ext_iff_of_nodup (nodup_eraseDups _) (nodup_eraseDups _)).mpr fun x => ?_
  simp only [List.mem_eraseDups, List.mem_append]
  exact Or.comm

/-- What was first stays in front. -/
theorem firstOccurrences_prefix_append (xs ys : List α) :
    firstOccurrences xs <+: (xs ++ ys).eraseDups := by
  rw [← eraseDups_eq_firstOccurrences, List.eraseDups_append]
  exact List.prefix_append _ _

end Order

/-- Merging is associative; a set that was merged before changes nothing; the empty set is neutral,
on either side, for the sets without duplicates and for no others; a merge has no duplicates. The
elements of the first set stay in front, in their order, and apart from the order the two sets can
change places. -/
theorem merge_first_wins (a b c : ActionSet) :
    (a.merge b).merge c = a.merge (b.merge c) ∧
      (a.merge b).merge a = a.merge b ∧ (a.merge b).merge b = a.merge b ∧
      (empty.merge a = a ↔ a.DuplicateFree) ∧ (a.merge empty = a ↔ a.DuplicateFree) ∧
      (a.merge b).DuplicateFree ∧
      a.distinct.definitions <+: (a.merge b).definitions ∧
      a.distinct.imports <+: (a.merge b).imports ∧
      (a.merge b).definitions.Perm (b.merge a).definitions ∧
      (a.merge b).imports.Perm (b.merge a).imports := by
  refine ⟨merge_assoc a b c, merge_merge_of_mem (by simp), merge_merge_of_mem (by simp), ?_, ?_,
    duplicateFree_merge a b, ?_, ?_, ?_, ?_⟩
  · rw [empty_merge, distinct_eq_self_iff]
  · rw [merge_empty, distinct_eq_self_iff]
  · exact firstOccurrences_prefix_append _ _
  · exact firstOccurrences_prefix_append _ _
  · exact eraseDups_append_perm _ _
  · exact eraseDups_append_perm _ _

end ActionUnits.ActionSet
