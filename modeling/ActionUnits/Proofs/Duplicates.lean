import ActionUnits.Proofs.Distinct
import ActionUnits.Unit.Registry
import Mathlib.Data.List.FinRange

/-! # Which ids a registry repeats

Ids are counted in a first pass over the entries, and a second pass collects
those that are counted more than once. The second pass only looks up ids that
the first one has counted, and finds each repeated id once, where it first occurs.
-/

namespace ActionUnits.Registry

/-- From any ids found before, the second pass goes on to the first occurrences of the other ids
that are counted more than once. -/
theorem foldlM_addRepeated? {counts : List (String × Nat)} {n : String → Nat} {ids : List String}
    (h : ∀ id ∈ ids, counts.lookup id = some (n id)) (found : List String) :
    ids.foldlM (addRepeated? counts) found =
      some (found ++ (ids.filter fun id => 1 < n id ∧ id ∉ found).eraseDups) := by
  induction ids generalizing found with
  | nil => simp
  | cons id ids ih =>
    obtain ⟨hid, hids⟩ := List.forall_mem_cons.mp h
    rw [List.foldlM_cons, addRepeated?_of_lookup hid]
    by_cases hnew : 1 < n id ∧ id ∉ found
    -- An id that is found is passed over from then on, as it is where duplicates are erased.
    · have hrest : (ids.filter fun other => 1 < n other ∧ other ∉ found ++ [id]) =
          (ids.filter fun other => 1 < n other ∧ other ∉ found).filter fun other => !other == id := by
        rw [List.filter_filter]
        refine List.filter_congr fun other _ => ?_
        by_cases hother : other = id <;> simp [hother]
      rw [if_pos hnew, Option.bind_eq_bind, Option.bind_some, ih hids, hrest,
        List.filter_cons_of_pos (by simpa using hnew), List.eraseDups_cons, List.append_assoc]
      rfl
    · rw [if_neg hnew, Option.bind_eq_bind, Option.bind_some, ih hids,
        List.filter_cons_of_neg (by simpa using hnew)]

theorem repeated?_eq_some (ids : List String) :
    repeated? ids = some (ids.filter fun id => 1 < ids.count id).eraseDups := by
  have hcounts : ∀ id ∈ ids, (countIds ids).lookup id = some (ids.count id) := by
    intro id hid
    rw [lookup_countIds, if_pos hid]
  rw [repeated?, foldlM_addRepeated? hcounts]
  simp

/-- Ids that occur more than once, by first occurrence. -/
theorem duplicates_eq_filter (entries : List RegistryEntry) :
    duplicates entries =
      (firstOccurrences (entries.map (·.discriminator))).filter fun id =>
        1 < (entries.map (·.discriminator)).count id := by
  have h := (repeated?_eq_duplicates entries).symm.trans (repeated?_eq_some _)
  rw [Option.some.inj h, eraseDups_filter, eraseDups_eq_firstOccurrences]

theorem mem_duplicates_iff_count {entries : List RegistryEntry} {id : String} :
    id ∈ duplicates entries ↔ 1 < (entries.map (·.discriminator)).count id := by
  rw [duplicates_eq_filter, List.mem_filter, ← eraseDups_eq_firstOccurrences, List.mem_eraseDups,
    decide_eq_true_eq, and_iff_right_of_imp]
  exact fun h => List.count_pos_iff.mp (by omega)

/-- An id occurs more than once if entries at different places have it. -/
theorem one_lt_count_iff_places {entries : List RegistryEntry} {id : String} :
    1 < (entries.map (·.discriminator)).count id ↔
      ∃ i j : Fin entries.length, i ≠ j ∧ entries[i].discriminator = id ∧
        entries[j].discriminator = id := by
  have hplaces : (List.finRange entries.length).map (fun i => entries[i].discriminator) =
      entries.map (·.discriminator) := by
    conv_rhs => rw [← List.map_get_finRange entries, List.map_map]
    rfl
  rw [← hplaces, one_lt_count_map_iff (List.nodup_finRange _)]
  constructor
  · rintro ⟨i, -, j, -, hi, hj, hne⟩
    exact ⟨i, j, hne, hi, hj⟩
  · rintro ⟨i, j, hne, hi, hj⟩
    exact ⟨i, List.mem_finRange i, j, List.mem_finRange j, hi, hj, hne⟩

theorem duplicates_eq_nil_iff {entries : List RegistryEntry} :
    duplicates entries = [] ↔ entries.Pairwise fun a b => a.discriminator ≠ b.discriminator := by
  have hnodup : (entries.map (·.discriminator)).Nodup ↔
      entries.Pairwise fun a b => a.discriminator ≠ b.discriminator := List.pairwise_map
  rw [← hnodup, List.nodup_iff_count_le_one, List.eq_nil_iff_forall_not_mem]
  simp only [mem_duplicates_iff_count, Nat.not_lt]

/-- Every id that the second pass looks up has been counted, so the pass ends with a list. It has no
repetitions, it holds an id exactly if entries at two places have it, whatever types they are for,
and its ids stand in the order in which the entries first have them. It is empty exactly if no two
entries have one id. -/
theorem duplicates_lists_repeated_ids (entries : List RegistryEntry) :
    (∀ entry ∈ entries, (countIds (entries.map (·.discriminator))).lookup entry.discriminator =
      some ((entries.map (·.discriminator)).count entry.discriminator)) ∧
    repeated? (entries.map (·.discriminator)) = some (duplicates entries) ∧
    (duplicates entries).Nodup ∧
    (∀ id, id ∈ duplicates entries ↔
      ∃ i j : Fin entries.length, i ≠ j ∧ entries[i].discriminator = id ∧
        entries[j].discriminator = id) ∧
    (duplicates entries).Pairwise (fun a b =>
      (entries.map (·.discriminator)).idxOf a < (entries.map (·.discriminator)).idxOf b) ∧
    (duplicates entries = [] ↔
      entries.Pairwise fun a b => a.discriminator ≠ b.discriminator) := by
  refine ⟨fun entry hentry => ?_, repeated?_eq_duplicates entries, ?_, fun id => ?_, ?_,
    duplicates_eq_nil_iff⟩
  · rw [lookup_countIds, if_pos (List.mem_map_of_mem hentry)]
  · rw [duplicates_eq_filter, ← eraseDups_eq_firstOccurrences]
    exact (nodup_eraseDups _).filter _
  · rw [mem_duplicates_iff_count, one_lt_count_iff_places]
  · rw [duplicates_eq_filter]
    exact (pairwise_firstOccurrences _).filter _

/-- Two ids are repeated in turns; the one that occurs first is reported first. -/
theorem repeated_ids_in_turns :
    ⟨⟨"BAction"⟩, "b"⟩ ∈ [(⟨⟨"BAction"⟩, "b"⟩ : RegistryEntry), ⟨⟨"AAction"⟩, "a"⟩,
        ⟨⟨"Other"⟩, "a"⟩, ⟨⟨"CAction"⟩, "c"⟩, ⟨⟨"BAction"⟩, "b"⟩, ⟨⟨"AAction"⟩, "a"⟩] ∧
      (countIds ["b", "a", "a", "c", "b", "a"]).lookup "b" = some 2 ∧
      duplicates [⟨⟨"BAction"⟩, "b"⟩, ⟨⟨"AAction"⟩, "a"⟩, ⟨⟨"Other"⟩, "a"⟩, ⟨⟨"CAction"⟩, "c"⟩,
        ⟨⟨"BAction"⟩, "b"⟩, ⟨⟨"AAction"⟩, "a"⟩] = ["b", "a"] := by
  have hmem : ⟨⟨"BAction"⟩, "b"⟩ ∈ [(⟨⟨"BAction"⟩, "b"⟩ : RegistryEntry), ⟨⟨"AAction"⟩, "a"⟩,
      ⟨⟨"Other"⟩, "a"⟩, ⟨⟨"CAction"⟩, "c"⟩, ⟨⟨"BAction"⟩, "b"⟩, ⟨⟨"AAction"⟩, "a"⟩] :=
    List.mem_cons_self
  obtain ⟨hcounts, hresult, -⟩ := duplicates_lists_repeated_ids
    [⟨⟨"BAction"⟩, "b"⟩, ⟨⟨"AAction"⟩, "a"⟩, ⟨⟨"Other"⟩, "a"⟩, ⟨⟨"CAction"⟩, "c"⟩,
      ⟨⟨"BAction"⟩, "b"⟩, ⟨⟨"AAction"⟩, "a"⟩]
  exact ⟨hmem, hcounts _ hmem, Option.some.inj (hresult.symm.trans rfl)⟩

end ActionUnits.Registry
